import AnchorHarness.Proofs.Rust.Canonical
import AnchorHarness.Proofs.Rust.Lexemes
import Mathlib.Data.List.Chain
import Mathlib.Data.List.TakeWhile

/-!
# Tokens of a respaced text

The canonical spelling of a text has the tokens of the text, each in its own spelling. It goes wrong
where spacing carries meaning: at the line end behind a line comment, in a character literal that is
a comma, and between signs that would become one. A text without such places is `Respaceable`.
-/

namespace AnchorHarness.Rust

open Text (isBlank)

/-! ### Respelled tokens -/

def Token.respelled (k : Carry) (t : Token) : Token :=
  ⟨k.gap ++ respace k.spacing t.gap ++ (k.spacing.after t.gap).lead t.text, t.kind, t.spelled⟩

def respell : Carry → List Token → List Token
  | _, [] => []
  | k, t :: ts => t.respelled k :: respell t.carry ts

/-! ### Tokens of a text -/

theorem tokenize_gap {g : List Char} (h : ∀ c ∈ g, isGap c = true) : tokenize g = [] := by
  have all : g.dropWhile isGap = [] := List.dropWhile_eq_nil_iff.mpr h
  rw [tokenize]
  split
  · rfl
  · next c rest hc =>
    rw [all] at hc
    cases hc

theorem tokenize_append {g r : List Char} {c : Char} (h : ∀ d ∈ g, isGap d = true)
    (hc : isGap c = false) :
    tokenize (g ++ c :: r) =
      ⟨g, (lexeme c r).1, c :: r.take (lexeme c r).2⟩ :: tokenize (r.drop (lexeme c r).2) := by
  have before : (g ++ c :: r).takeWhile isGap = g := by
    rw [List.takeWhile_append_of_pos h, List.takeWhile_cons_of_neg (by simp [hc]), List.append_nil]
  have behind : (g ++ c :: r).dropWhile isGap = c :: r := by
    rw [List.dropWhile_append_of_pos h, List.dropWhile_cons_of_neg (by simp [hc])]
  rw [tokenize]
  split
  · next none =>
    rw [behind] at none
    cases none
  · next d rest hd =>
    rw [behind] at hd
    obtain ⟨rfl, rfl⟩ := List.cons.inj hd
    rw [before]

/-- Every text is a gap, or has a token behind a gap. -/
theorem exists_gap_append (cs : List Char) :
    (∀ c ∈ cs, isGap c = true) ∨
      ∃ g c r, cs = g ++ c :: r ∧ (∀ d ∈ g, isGap d = true) ∧ isGap c = false := by
  induction cs with
  | nil => exact .inl (by simp)
  | cons c cs ih =>
    cases hc : isGap c with
    | false => exact .inr ⟨[], c, cs, rfl, by simp, hc⟩
    | true =>
      obtain all | ⟨g, d, r, rfl, hg, hd⟩ := ih
      · exact .inl (List.forall_mem_cons.mpr ⟨hc, all⟩)
      · exact .inr ⟨c :: g, d, r, rfl, List.forall_mem_cons.mpr ⟨hc, hg⟩, hd⟩

/-! ### A token and its gap -/

theorem isGap_of_isBlank {c : Char} (h : isBlank c = true) : isGap c = true := by
  rw [isGap, h, Bool.true_or]

theorem isGap_cases {c : Char} (h : isGap c = true) : isBlank c = true ∨ IsInert c := by
  obtain blank | rfl | (rfl | rfl) | rfl | inert := character_cases c
  · exact .inl blank
  · exact absurd h (by decide)
  · exact absurd h (by decide)
  · exact absurd h (by decide)
  · exact absurd h (by decide)
  · exact .inr inert

theorem isGap_owed (s : Spacing) : ∀ c ∈ s.owed, isGap c = true := by
  cases s <;> exact List.all_eq_true.mp rfl

theorem isGap_respace {g : List Char} (h : ∀ c ∈ g, isGap c = true) (s : Spacing) :
    ∀ c ∈ respace s g, isGap c = true := by
  induction g generalizing s with
  | nil => exact fun c hc => by cases hc
  | cons c g ih =>
    obtain ⟨hc, hg⟩ := List.forall_mem_cons.mp h
    obtain blank | inert := isGap_cases hc
    · rw [respace_blank blank]
      exact ih hg s.widen
    · rw [respace_inert inert]
      have behind : ∀ d ∈ c :: respace .joined g, isGap d = true :=
        List.forall_mem_cons.mpr ⟨hc, ih hg .joined⟩
      intro d hd
      rcases List.mem_append.mp hd with hd | hd
      · exact isGap_owed s d hd
      · exact behind d hd

theorem ne_colon_of_isGap {c : Char} (h : isGap c = true) : c ≠ ':' := by
  rintro rfl
  exact absurd h (by decide)

theorem isGap_lead (s : Spacing) (cs : List Char) : ∀ c ∈ s.lead cs, isGap c = true := by
  unfold Spacing.lead
  split
  · simp
  · simp
  · split
    · simp
    · exact isGap_owed s

theorem lead_append (s : Spacing) {c : Char} {front rest : List Char}
    (cut : endsInColon (c :: front) = true → rest.head? ≠ some ':') :
    s.lead (c :: (front ++ rest)) = s.lead (c :: front) := by
  by_cases pair : c = ':' ∧ front.head? = some ':'
  · obtain ⟨rfl, hd⟩ := pair
    obtain ⟨front, rfl⟩ := List.head?_eq_some_iff.mp hd
    rfl
  · have single (he : c = ':') : front.head? ≠ some ':' := fun hd => pair ⟨he, hd⟩
    rw [lead_cons single, lead_cons]
    intro he
    subst he
    exact head?_append_ne (single rfl) cut

theorem isBlank_carry (t : Token) : ∀ c ∈ t.carry.gap, isBlank c = true := by
  unfold Token.carry
  dsimp only
  split
  · exact List.all_eq_true.mp rfl
  · simp

/-- The text of a literal or a comment has a quote or a slash. -/
def Token.IsMarked (t : Token) : Prop := t.kind.isPlain = false → ∃ m ∈ t.text, isMark m = true

/-- What holds of a token wherever it stands. -/
structure Token.IsSound (t : Token) : Prop where
  starts : ∃ c front, t.text = c :: front ∧ isBlank c = false
  canonical : canonicalType t.text = t.spelled ++ t.carry.gap
  marked : t.IsMarked

section

variable {t : Token} {c : Char} {front spelled rest : List Char}

theorem Token.IsSound.respace_eq (h : t.IsSound)
    (cut : endsInColon t.text = true → rest.head? ≠ some ':') (s : Spacing) :
    respace s (t.text ++ rest) =
      s.lead t.text ++ (t.spelled ++ (t.carry.gap ++ respace t.carry.spacing rest)) := by
  obtain ⟨c, front, text, blank⟩ := h.starts
  have lead : s.lead (t.text ++ rest) = s.lead t.text := by
    rw [text] at cut ⊢
    exact lead_append s cut
  calc respace s (t.text ++ rest) = s.lead t.text ++ respace .tight (t.text ++ rest) := by
        rw [← lead, text]
        exact respace_eq_lead blank s (front ++ rest)
    _ = s.lead t.text ++ (canonicalType t.text ++ respace t.carry.spacing rest) := by
        rw [respace_append .tight t.text rest cut]
        rfl
    _ = _ := by rw [h.canonical, List.append_assoc]

/-- A token in front of a text is spelled behind its gap. -/
theorem Token.IsSound.carry_append (h : t.IsSound) (hg : ∀ d ∈ t.gap, isGap d = true)
    (cut : endsInColon t.text = true → rest.head? ≠ some ':') (k : Carry) :
    k.gap ++ respace k.spacing (t.gap ++ (t.text ++ rest)) =
      (t.respelled k).gap ++ ((t.respelled k).text ++
        (t.carry.gap ++ respace t.carry.spacing rest)) := by
  have apart : endsInColon t.gap = true → (t.text ++ rest).head? ≠ some ':' := by
    rw [endsInColon_eq_false fun d hd => ne_colon_of_isGap (hg d hd)]
    intro ends
    cases ends
  rw [respace_append _ _ _ apart, h.respace_eq cut, ← List.append_assoc, ← List.append_assoc]
  rfl

theorem Reads.sound (h : Reads t c front spelled rest) (hc : isGap c = false) : t.IsSound := by
  have blank : isBlank c = false := by
    cases hb : isBlank c with
    | false => rfl
    | true => exact (isGap_of_isBlank hb).symm.trans hc
  exact ⟨⟨c, front, h.text, blank⟩, h.canonical, h.marked⟩

theorem Reads.tokenize_eq (h : Reads t c front spelled rest) (hg : ∀ d ∈ t.gap, isGap d = true)
    (hc : isGap c = false) : tokenize (t.gap ++ (t.text ++ rest)) = t :: tokenize rest := by
  rw [h.text, List.cons_append, tokenize_append hg hc, h.here, List.take_left, List.drop_left,
    ← h.text]

theorem isGap_respelled (hg : ∀ d ∈ t.gap, isGap d = true) {k : Carry}
    (hk : ∀ d ∈ k.gap, isGap d = true) : ∀ d ∈ (t.respelled k).gap, isGap d = true := by
  intro d hd
  rcases List.mem_append.mp hd with hd | hd
  · rcases List.mem_append.mp hd with hd | hd
    · exact hk d hd
    · exact isGap_respace hg _ d hd
  · exact isGap_lead _ _ d hd

theorem Reads.tokenize_respace (h : Reads t c front spelled rest) (hg : ∀ d ∈ t.gap, isGap d = true)
    (hc : isGap c = false) {k : Carry} (hk : ∀ d ∈ k.gap, isGap d = true) :
    tokenize (k.gap ++ respace k.spacing (t.gap ++ (t.text ++ rest))) =
      t.respelled k :: tokenize (t.carry.gap ++ respace t.carry.spacing rest) := by
  have text : (t.respelled k).text = c :: spelled := h.spells
  rw [(h.sound hc).carry_append hg h.cut, text, List.cons_append,
    tokenize_append (isGap_respelled hg hk) hc, h.there, List.take_left, List.drop_left, ← text]
  rfl

end

/-! ### Respaceable texts -/

structure Respaceable (cs : List Char) : Prop where
  -- A line comment loses its line end, and takes in the text behind it.
  lines : ∀ t ∈ tokenize cs, t.kind = .comment → t.text.take 2 ≠ ['/', '/']
  -- A quote that opens nothing may open a literal when the blanks behind it become one.
  quotes : ∀ t ∈ tokenize cs, t.isSymbol "'" = false
  -- A literal `','` is spelled with a blank behind its comma, and is no literal any more.
  characters : ∀ t ∈ tokenize cs, t.kind = .character → ',' ∉ t.text
  -- The signs of `- >` and `= >` would become an arrow, those of `: ::` three colons.
  arrows : (tokenize cs).IsChain fun t u =>
    t.isSymbol "-" ∨ t.isSymbol "=" → u.isSymbol ">" = false
  colons : colonsApart cs = true

section

variable {g r : List Char} {c : Char}

theorem afterQuote_eq_of_symbol {cs : List Char} (h : (afterQuote cs).1 = .symbol) :
    afterQuote cs = (.symbol, 0) := by
  unfold afterQuote at h ⊢
  split at h
  · cases h
  · split at h
    · next quote => simp [quote]
    · cases h
  · split at h
    · cases h
    · next name => simp [name]
  · rfl

theorem Respaceable.line (h : Respaceable (g ++ '/' :: r)) (hg : ∀ d ∈ g, isGap d = true) :
    r.head? ≠ some '/' := by
  intro head
  obtain ⟨r, rfl⟩ := List.head?_eq_some_iff.mp head
  have lines := h.lines
  rw [tokenize_append hg (by decide)] at lines
  refine lines _ (List.mem_cons_self ..) rfl ?_
  simp [lexeme]

theorem Respaceable.quote (h : Respaceable (g ++ '\'' :: r)) (hg : ∀ d ∈ g, isGap d = true) :
    (lexeme '\'' r).1 ≠ .symbol := by
  intro symbol
  have read : lexeme '\'' r = (.symbol, 0) := afterQuote_eq_of_symbol symbol
  have quotes := h.quotes
  rw [tokenize_append hg (by decide), read] at quotes
  have stray : true = false := quotes _ (List.mem_cons_self ..)
  cases stray

theorem Respaceable.comma (h : Respaceable (g ++ c :: r)) (hg : ∀ d ∈ g, isGap d = true)
    (hc : isGap c = false) (character : (lexeme c r).1 = .character) :
    ',' ∉ r.take (lexeme c r).2 := by
  have characters := h.characters
  rw [tokenize_append hg hc] at characters
  exact fun hm => characters _ (List.mem_cons_self ..) character (List.mem_cons_of_mem c hm)

theorem Respaceable.arrow (h : Respaceable (g ++ c :: r)) (hg : ∀ d ∈ g, isGap d = true)
    (hc : c = '-' ∨ c = '=') (head : (respace .joined r).head? = some '>') :
    r.head? = some '>' := by
  obtain ⟨b, x, rfl, blanks, -⟩ := exists_of_head?_respace head (by decide)
  cases b with
  | nil => rfl
  | cons d b =>
    have gaps : ∀ e ∈ d :: b, isGap e = true := fun e he => isGap_of_isBlank (blanks e he)
    have other : (d :: b ++ '>' :: x).head? ≠ some '>' := by
      intro he
      obtain rfl : d = '>' := Option.some.inj he
      exact absurd (blanks '>' (List.mem_cons_self ..)) (by decide)
    have sign : isGap c = false := by rcases hc with rfl | rfl <;> decide
    have arrows := h.arrows
    rw [tokenize_append hg sign, lexeme_arrow hc other, List.drop_zero,
      tokenize_append gaps (by decide), lexeme_angle (.inr rfl), List.isChain_cons_cons] at arrows
    have met : true = false := by
      rcases hc with rfl | rfl
      · exact arrows.1 (.inl rfl)
      · exact arrows.1 (.inr rfl)
    cases met

theorem Respaceable.colon (h : Respaceable (g ++ ':' :: r)) :
    (respace .joined r).head? = some ':' → r.head? = some ':' :=
  head?_of_colonsApart (colonsApart_of_append_right h.colons)

theorem Respaceable.rest {t : Token} {front spelled rest : List Char}
    (h : Respaceable (t.gap ++ (t.text ++ rest))) (read : Reads t c front spelled rest)
    (hg : ∀ d ∈ t.gap, isGap d = true) (hc : isGap c = false) : Respaceable rest := by
  have tokens := read.tokenize_eq hg hc
  have behind : ∀ u ∈ tokenize rest, u ∈ tokenize (t.gap ++ (t.text ++ rest)) := by
    intro u hu
    rw [tokens]
    exact List.mem_cons_of_mem t hu
  refine ⟨fun u hu => h.lines u (behind u hu), fun u hu => h.quotes u (behind u hu),
    fun u hu => h.characters u (behind u hu), ?_, ?_⟩
  · have arrows := h.arrows
    rw [tokens] at arrows
    exact List.isChain_of_isChain_cons arrows
  · exact colonsApart_of_append_right (colonsApart_of_append_right h.colons)

end

/-- Induction along the tokens of a respaceable text. -/
theorem tokenize_induction {motive : List Char → Prop}
    (gap : ∀ g, (∀ c ∈ g, isGap c = true) → motive g)
    (token : ∀ t c front spelled rest, (∀ d ∈ t.gap, isGap d = true) → isGap c = false →
      Reads t c front spelled rest → motive rest → motive (t.gap ++ (t.text ++ rest)))
    (cs : List Char) (h : Respaceable cs) : motive cs := by
  induction hn : cs.length using Nat.strongRecOn generalizing cs with
  | ind n ih =>
    subst hn
    obtain all | ⟨g, c, r, rfl, hg, hc⟩ := exists_gap_append cs
    · exact gap cs all
    · obtain ⟨front, spelled, rest, rfl, read⟩ :=
        exists_reads hc (fun he => (he ▸ h).line hg) (fun he => he ▸ (he ▸ h).quote hg)
          (h.comma hg hc) (fun he => h.arrow hg he) (fun he => (he ▸ h).colon) g
      have text : c :: (front ++ rest) = c :: front ++ rest := rfl
      have same := read.text
      generalize ht : Token.mk g (lexeme c (front ++ rest)).1
        (c :: (front ++ rest).take (lexeme c (front ++ rest)).2) = t at read same
      have gap : t.gap = g := by rw [← ht]
      rw [text, ← gap, ← same] at h ih ⊢
      refine token t c front spelled rest (gap ▸ hg) hc read (ih rest.length ?_ rest ?_ rfl)
      · rw [same]
        simp only [List.length_append, List.length_cons]
        omega
      · exact h.rest read (gap ▸ hg) hc

/-- The canonical spelling of a text has the respelled tokens of the text. -/
theorem tokenize_respace {cs : List Char} (h : Respaceable cs) :
    ∀ k : Carry, (∀ c ∈ k.gap, isGap c = true) →
      tokenize (k.gap ++ respace k.spacing cs) = respell k (tokenize cs) := by
  refine tokenize_induction (motive := fun cs => ∀ k : Carry, (∀ c ∈ k.gap, isGap c = true) →
      tokenize (k.gap ++ respace k.spacing cs) = respell k (tokenize cs)) ?_ ?_ cs h
  · intro g hg k hk
    have gaps : ∀ c ∈ k.gap ++ respace k.spacing g, isGap c = true := by
      intro c hc
      rcases List.mem_append.mp hc with hc | hc
      · exact hk c hc
      · exact isGap_respace hg _ c hc
    rw [tokenize_gap hg, tokenize_gap gaps]
    rfl
  · intro t c front spelled rest hg hc read ih k hk
    have carried : ∀ c ∈ t.carry.gap, isGap c = true := fun c hc =>
      isGap_of_isBlank (isBlank_carry t c hc)
    rw [read.tokenize_respace hg hc hk, read.tokenize_eq hg hc, ih t.carry carried]
    rfl

end AnchorHarness.Rust
