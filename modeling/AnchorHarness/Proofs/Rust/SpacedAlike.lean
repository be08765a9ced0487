import AnchorHarness.Proofs.Rust.Canonical
import Mathlib.Data.List.Chain

/-!
# Texts spaced alike

A text is a row of glyphs with blanks between them, where a pair of colons is one glyph. Blanks
beside a tight glyph and at the ends of a text mean nothing, and of all others it only counts
whether there are any. Two texts that agree in the rest are spaced alike, and those are the texts of
one canonical spelling.
-/

namespace AnchorHarness.Rust

open Text (isBlank)

/-! ### Glyphs -/

/-- The glyph that a text begins with, and what stands behind it. -/
inductive Glyph : List Char → List Char → Prop where
  | colons (rest : List Char) : Glyph [':', ':'] rest
  | single {c : Char} {rest : List Char} : isBlank c = false →
      (c = ':' → rest.head? ≠ some ':') → Glyph [c] rest

def isTightGlyph (g : List Char) : Bool := g == [':', ':'] || g == ['<'] || g == ['>'] || g == [',']

/-- The glyphs of a text, without the blanks between them. -/
def glyphs : List Char → List (List Char)
  | [] => []
  | ':' :: ':' :: cs => [':', ':'] :: glyphs cs
  | c :: cs => if isBlank c then glyphs cs else [c] :: glyphs cs

/-- No single colon stands before a pair of colons, whether or not there are blanks between them. -/
def ColonsClear (cs : List Char) : Prop :=
  (glyphs cs).IsChain fun g h => ¬(g = [':'] ∧ h = [':', ':'])

/-- Texts of the same glyphs, with blanks in the same places but beside tight glyphs and at the end;
blanks in front of the first glyph mean nothing where the text is `loose`. -/
inductive SpacedAlike : Bool → List Char → List Char → Prop where
  | blank {loose : Bool} {b b' : List Char} : AllBlank b → AllBlank b' → SpacedAlike loose b b'
  | glyph {loose : Bool} {b b' g x y : List Char} : AllBlank b → AllBlank b' → Glyph g x →
      Glyph g y → (loose = true ∨ isTightGlyph g = true ∨ (b = [] ↔ b' = [])) →
      SpacedAlike (isTightGlyph g) x y → SpacedAlike loose (b ++ (g ++ x)) (b' ++ (g ++ y))

theorem Glyph.exists_cons {g x : List Char} (h : Glyph g x) :
    ∃ c front, g = c :: front ∧ isBlank c = false := by
  cases h with
  | colons => exact ⟨':', [':'], rfl, by decide⟩
  | @single c _ other _ => exact ⟨c, [], rfl, other⟩

theorem glyphs_cons {c : Char} {cs : List Char} (h : c = ':' → cs.head? ≠ some ':') :
    glyphs (c :: cs) = if isBlank c then glyphs cs else [c] :: glyphs cs := by
  rw [glyphs.eq_def]
  split
  · next none => cases none
  · next ds pair =>
    obtain ⟨rfl, rfl⟩ := List.cons.inj pair
    exact absurd rfl (h rfl)
  · next d ds _ same =>
    obtain ⟨rfl, rfl⟩ := List.cons.inj same
    rfl

theorem Glyph.glyphs_append {g x : List Char} (h : Glyph g x) :
    glyphs (g ++ x) = g :: glyphs x := by
  cases h with
  | colons => rfl
  | single other alone =>
    rw [List.singleton_append, glyphs_cons alone, other]
    rfl

theorem glyphs_blank_append {b : List Char} (h : AllBlank b) (x : List Char) :
    glyphs (b ++ x) = glyphs x := by
  induction b with
  | nil => rfl
  | cons c b ih =>
    have blank : isBlank c = true := h c (List.mem_cons_self ..)
    have other : c ≠ ':' := ne_colon_of_isBlank blank
    rw [List.cons_append, glyphs_cons (fun he => absurd he other), blank, if_pos rfl]
    exact ih fun d hd => h d (List.mem_cons_of_mem c hd)

/-! ### Reading glyph by glyph -/

theorem exists_glyph (cs : List Char) :
    AllBlank cs ∨ ∃ b g x, cs = b ++ (g ++ x) ∧ AllBlank b ∧ Glyph g x := by
  have blanks : AllBlank (cs.takeWhile isBlank) := List.all_eq_true.mp List.all_takeWhile
  have split : cs = cs.takeWhile isBlank ++ cs.dropWhile isBlank :=
    List.takeWhile_append_dropWhile.symm
  have stop := List.head?_dropWhile_not isBlank cs
  generalize cs.takeWhile isBlank = b at blanks split
  generalize cs.dropWhile isBlank = x at split stop
  cases x with
  | nil =>
    left
    rw [split, List.append_nil]
    exact blanks
  | cons c x =>
    right
    have other : isBlank c = false := stop
    by_cases pair : c = ':' ∧ x.head? = some ':'
    · obtain ⟨rfl, hd⟩ := pair
      obtain ⟨x, rfl⟩ := List.head?_eq_some_iff.mp hd
      exact ⟨b, [':', ':'], x, split, blanks, .colons x⟩
    · exact ⟨b, [c], x, split, blanks, .single other fun he hd => pair ⟨he, hd⟩⟩

theorem glyph_induction {motive : List Char → Prop} (blank : ∀ b, AllBlank b → motive b)
    (glyph : ∀ b g x, AllBlank b → Glyph g x → motive x → motive (b ++ (g ++ x)))
    (cs : List Char) : motive cs := by
  induction hn : cs.length using Nat.strongRecOn generalizing cs with
  | ind n ih =>
    obtain all | ⟨b, g, x, rfl, hb, hg⟩ := exists_glyph cs
    · exact blank cs all
    · obtain ⟨c, front, rfl, -⟩ := hg.exists_cons
      simp only [List.length_append, List.length_cons] at hn
      exact glyph b _ x hb hg (ih x.length (by omega) x rfl)

/-- A text is read into blanks, a glyph and the rest in one way only. -/
theorem Glyph.append_inj {b b' g g' x x' : List Char} (hb : AllBlank b) (hb' : AllBlank b')
    (hg : Glyph g x) (hg' : Glyph g' x') (h : b ++ (g ++ x) = b' ++ (g' ++ x')) :
    b = b' ∧ g = g' ∧ x = x' := by
  have front (b g x : List Char) (hb : AllBlank b) (hg : Glyph g x) :
      (b ++ (g ++ x)).takeWhile isBlank = b ∧ (b ++ (g ++ x)).dropWhile isBlank = g ++ x := by
    obtain ⟨c, front, rfl, other⟩ := hg.exists_cons
    have stops : ¬isBlank c = true := by simp [other]
    rw [List.takeWhile_append_of_pos hb, List.dropWhile_append_of_pos hb, List.cons_append,
      List.takeWhile_cons_of_neg stops, List.dropWhile_cons_of_neg stops, List.append_nil]
    exact ⟨rfl, rfl⟩
  have first := front b g x hb hg
  have second := front b' g' x' hb' hg'
  rw [h] at first
  have gaps : b = b' := first.1.symm.trans second.1
  have rest : g ++ x = g' ++ x' := first.2.symm.trans second.2
  cases hg with
  | colons =>
    cases hg' with
    | colons => exact ⟨gaps, rfl, List.append_cancel_left rest⟩
    | single other alone =>
      obtain ⟨rfl, rfl⟩ := List.cons.inj rest
      exact absurd rfl (alone rfl)
  | single other alone =>
    cases hg' with
    | colons =>
      obtain ⟨rfl, rfl⟩ := List.cons.inj rest
      exact absurd rfl (alone rfl)
    | single other' alone' =>
      obtain ⟨rfl, rfl⟩ := List.cons.inj rest
      exact ⟨gaps, rfl, rfl⟩

theorem Glyph.not_allBlank {b g x : List Char} (h : Glyph g x) : ¬AllBlank (b ++ (g ++ x)) := by
  obtain ⟨c, front, rfl, other⟩ := h.exists_cons
  intro all
  have blank : isBlank c = true := all c (by simp)
  rw [other] at blank
  cases blank

/-! ### An equivalence -/

section

variable {loose : Bool} {x y z : List Char}

theorem SpacedAlike.symm (h : SpacedAlike loose x y) : SpacedAlike loose y x := by
  induction h with
  | blank hb hb' => exact .blank hb' hb
  | glyph hb hb' hg hg' gap _ ih =>
    refine .glyph hb' hb hg' hg ?_ ih
    rcases gap with free | tight | same
    · exact .inl free
    · exact .inr (.inl tight)
    · exact .inr (.inr same.symm)

theorem SpacedAlike.trans (h : SpacedAlike loose x y) (h' : SpacedAlike loose y z) :
    SpacedAlike loose x z := by
  induction h generalizing z with
  | @blank loose b b' hb hb' =>
    generalize hy : b' = y at h'
    cases h' with
    | blank _ hz => exact .blank hb hz
    | glyph hb'' _ hg _ _ _ =>
      subst hy
      exact absurd hb' hg.not_allBlank
  | @glyph loose b b' g x y hb hb' hg hg' gap _ ih =>
    generalize hy : b' ++ (g ++ y) = w at h'
    cases h' with
    | blank hw _ =>
      subst hy
      exact absurd hw hg'.not_allBlank
    | glyph hc hc' hk hk' gap' rest =>
      obtain ⟨rfl, rfl, rfl⟩ := Glyph.append_inj hb' hc hg' hk hy
      refine .glyph hb hc' hg hk' ?_ (ih rest)
      rcases gap with free | tight | same
      · exact .inl free
      · exact .inr (.inl tight)
      · rcases gap' with free | tight | same'
        · exact .inl free
        · exact .inr (.inl tight)
        · exact .inr (.inr (same.trans same'))

theorem SpacedAlike.blank_append (h : SpacedAlike true x y) {b : List Char} (hb : AllBlank b) :
    SpacedAlike true x (b ++ y) := by
  have both {b' : List Char} (hb' : AllBlank b') : AllBlank (b ++ b') := by
    intro c hc
    rcases List.mem_append.mp hc with hc | hc
    · exact hb c hc
    · exact hb' c hc
  cases h with
  | blank hx hy => exact .blank hx (both hy)
  | glyph hc hc' hg hg' _ rest =>
    have joined : SpacedAlike true _ _ := .glyph hc (both hc') hg hg' (.inl rfl) rest
    rwa [List.append_assoc b] at joined

end

/-! ### Spelling -/

/-- The state in front of blanks: behind a tight glyph or at the beginning, or behind another. -/
def Spacing.behind (loose : Bool) : Spacing := if loose then .tight else .joined

/-- A glyph in the canonical spelling, with the space that stands behind a comma. -/
def spelledGlyph (g : List Char) : List Char := if g = [','] then [',', ' '] else g

/-- The space in front of a glyph in the canonical spelling. -/
def glyphGap (loose : Bool) (b g : List Char) : List Char :=
  if loose = true ∨ isTightGlyph g = true ∨ b = [] then [] else [' ']

theorem Glyph.respace_append {g x : List Char} (h : Glyph g x) (s : Spacing) :
    respace s (g ++ x) = (if isTightGlyph g then [] else s.owed) ++
      (spelledGlyph g ++ respace (.behind (isTightGlyph g)) x) := by
  cases h with
  | colons => rfl
  | @single c _ other alone =>
    rw [List.singleton_append]
    obtain blank | rfl | angle | rfl | inert := character_cases c
    · rw [other] at blank
      cases blank
    · rfl
    · rw [respace_angle angle]
      rcases angle with rfl | rfl <;> rfl
    · rw [respace_colon (alone rfl)]
      rfl
    · have loose : isTightGlyph [c] = false := by
        have colon := inert.2.2
        have sign := inert.2.1
        simp only [isTightSign, Bool.or_eq_false_iff, beq_eq_false_iff_ne] at sign
        simp [isTightGlyph, sign.1.1, sign.1.2, sign.2]
      have plain : spelledGlyph [c] = [c] := by
        have comma : c ≠ ',' := by
          rintro rfl
          exact absurd inert (by decide)
        simp [spelledGlyph, comma]
      rw [respace_inert inert, loose, plain]
      rfl

theorem Glyph.respace_blank_append {b g x : List Char} (hb : AllBlank b) (hg : Glyph g x)
    (loose : Bool) :
    respace (.behind loose) (b ++ (g ++ x)) =
      glyphGap loose b g ++ (spelledGlyph g ++ respace (.behind (isTightGlyph g)) x) := by
  cases loose with
  | true =>
    change respace .tight (b ++ (g ++ x)) = _
    rw [Rust.respace_blank_append rfl hb, hg.respace_append]
    simp [glyphGap, Spacing.owed]
  | false =>
    change respace .joined (b ++ (g ++ x)) = _
    rw [respace_joined_append hb, hg.respace_append]
    by_cases tight : isTightGlyph g = true
    · simp [glyphGap, tight]
    · by_cases none : b = []
      · simp [glyphGap, none, Spacing.owed]
      · simp [glyphGap, tight, none, Spacing.owed]

theorem SpacedAlike.respace_eq {loose : Bool} {x y : List Char} (h : SpacedAlike loose x y) :
    respace (.behind loose) x = respace (.behind loose) y := by
  induction h with
  | blank hb hb' => rw [respace_of_blank hb, respace_of_blank hb']
  | @glyph loose b b' g x y hb hb' hg hg' gap _ ih =>
    have same : glyphGap loose b g = glyphGap loose b' g := by
      unfold glyphGap
      rcases gap with free | tight | same
      · simp [free]
      · simp [tight]
      · simp [same]
    rw [hg.respace_blank_append hb, hg'.respace_blank_append hb', same, ih]

/-! ### The canonical spelling of a text -/

theorem ColonsClear.rest {b g x : List Char} (h : ColonsClear (b ++ (g ++ x))) (hb : AllBlank b)
    (hg : Glyph g x) : ColonsClear x := by
  rw [ColonsClear, glyphs_blank_append hb, hg.glyphs_append] at h
  exact List.isChain_of_isChain_cons h

/-- A single colon stays single in the canonical spelling. -/
theorem Glyph.of_clear {b g x : List Char} (hb : AllBlank b) (hg : Glyph g x)
    (h : ColonsClear (b ++ (g ++ x))) (rest : List Char)
    (spelled : rest = respace (.behind (isTightGlyph g)) x) : Glyph g rest := by
  cases hg with
  | colons => exact .colons rest
  | @single c _ other alone =>
    refine .single other fun he hd => ?_
    subst he
    have head : (respace .joined x).head? = some ':' := by
      rw [spelled] at hd
      exact hd
    obtain ⟨b', x', rfl, blanks, none | sign | ⟨-, pair⟩⟩ :=
      exists_of_head?_respace head (by decide)
    · subst none
      exact alone rfl rfl
    · cases sign
    · obtain ⟨x', rfl⟩ := List.head?_eq_some_iff.mp pair
      have colon : Glyph [':'] (b' ++ ':' :: ':' :: x') := .single other alone
      have colons : glyphs (':' :: ':' :: x') = [':', ':'] :: glyphs x' := rfl
      rw [ColonsClear, glyphs_blank_append hb, colon.glyphs_append, glyphs_blank_append blanks,
        colons, List.isChain_cons_cons] at h
      exact h.1 ⟨rfl, rfl⟩

theorem spacedAlike_respace (cs : List Char) (h : ColonsClear cs) (loose : Bool) :
    SpacedAlike loose cs (respace (.behind loose) cs) := by
  induction cs using glyph_induction generalizing loose with
  | blank b hb =>
    rw [respace_of_blank hb]
    exact .blank hb (by simp [AllBlank])
  | glyph b g x hb hg ih =>
    have rest := ih (h.rest hb hg) (isTightGlyph g)
    have gap : AllBlank (glyphGap loose b g) := by
      unfold glyphGap
      split
      · simp [AllBlank]
      · exact List.all_eq_true.mp rfl
    have places : loose = true ∨ isTightGlyph g = true ∨ (b = [] ↔ glyphGap loose b g = []) := by
      unfold glyphGap
      cases loose <;> cases isTightGlyph g <;> simp
    rw [hg.respace_blank_append hb]
    by_cases comma : g = [',']
    · subst comma
      have space : AllBlank [' '] := List.all_eq_true.mp rfl
      have comma (x : List Char) : Glyph [','] x := .single (by decide) fun he => by cases he
      exact .glyph hb gap hg (comma _) places (rest.blank_append space)
    · rw [spelledGlyph, if_neg comma]
      exact .glyph hb gap hg (hg.of_clear hb h _ rfl) places rest

/-! ### Characters kept -/

def withoutBlanks (cs : List Char) : List Char := cs.filter fun c => !isBlank c

theorem withoutBlanks_cons {c : Char} (h : isBlank c = false) (cs : List Char) :
    withoutBlanks (c :: cs) = c :: withoutBlanks cs := by
  have kept : (!isBlank c) = true := by simp [h]
  exact List.filter_cons_of_pos kept

theorem withoutBlanks_owed (s : Spacing) (cs : List Char) :
    withoutBlanks (s.owed ++ cs) = withoutBlanks cs := by
  cases s <;> rfl

theorem withoutBlanks_respace (s : Spacing) (cs : List Char) :
    withoutBlanks (respace s cs) = withoutBlanks cs := by
  have colon : isBlank ':' = false := by decide
  induction s, cs using spacing_induction with
  | nil s => rfl
  | colons s cs ih =>
    rw [respace_colons]
    simp only [withoutBlanks_cons colon, ih]
  | colon s cs hd ih =>
    rw [respace_colon hd, withoutBlanks_owed]
    simp only [withoutBlanks_cons colon, ih]
  | blank s c cs hc ih =>
    have dropped : withoutBlanks (c :: cs) = withoutBlanks cs :=
      List.filter_cons_of_neg (by simp [hc])
    rw [respace_blank hc, dropped, ih]
  | comma s cs ih =>
    rw [respace_comma]
    exact congrArg (',' :: ·) ih
  | angle s c cs hc ih =>
    have other : isBlank c = false := by rcases hc with rfl | rfl <;> rfl
    rw [respace_angle hc, withoutBlanks_cons other, withoutBlanks_cons other, ih]
  | inert s c cs hc ih =>
    rw [respace_inert hc, withoutBlanks_owed, withoutBlanks_cons hc.1, withoutBlanks_cons hc.1, ih]

/-! ### One spelling -/

theorem canonicalType_eq_iff {x y : List Char} (hx : ColonsClear x) (hy : ColonsClear y) :
    canonicalType x = canonicalType y ↔ SpacedAlike true x y := by
  constructor
  · intro h
    have left : SpacedAlike true x (canonicalType x) := spacedAlike_respace x hx true
    have right : SpacedAlike true y (canonicalType y) := spacedAlike_respace y hy true
    rw [h] at left
    exact left.trans right.symm
  · intro h
    exact h.respace_eq

theorem normalizeType_eq_iff_canonicalType (x y : String) :
    normalizeType x = normalizeType y ↔ canonicalType x.toList = canonicalType y.toList := by
  rw [normalizeType, normalizeType, String.ofList_inj]

/-- Texts have the same canonical spelling just if they are spaced alike, and the canonical spelling
is its own. So types have one text if they are written in texts that are spaced alike. -/
theorem normalizeType_canonical {x y : String} (hx : ColonsClear x.toList)
    (hy : ColonsClear y.toList) :
    (normalizeType x = normalizeType y ↔ SpacedAlike true x.toList y.toList) ∧
      normalizeType (normalizeType x) = normalizeType x ∧
      withoutBlanks (normalizeType x).toList = withoutBlanks x.toList ∧
      ∀ ts us as bs, textOfTrees ts = x.toList → textOfTrees us = y.toList →
        SpacedAlike true x.toList y.toList → (typeOfTrees ts as).text = (typeOfTrees us bs).text := by
  have text : (normalizeType x).toList = canonicalType x.toList := String.toList_ofList
  have own : SpacedAlike true x.toList (canonicalType x.toList) :=
    spacedAlike_respace x.toList hx true
  refine ⟨?_, ?_, ?_, ?_⟩
  · rw [normalizeType_eq_iff_canonicalType]
    exact canonicalType_eq_iff hx hy
  · rw [normalizeType_eq_iff_canonicalType, text]
    exact own.respace_eq.symm
  · rw [text]
    exact withoutBlanks_respace .tight x.toList
  · intro ts us as bs ht hu alike
    have same : canonicalType x.toList = canonicalType y.toList := alike.respace_eq
    rw [typeOfTrees, typeOfTrees, ht, hu, same]

theorem normalizeType_canonical_vault :
    ColonsClear " state :: Vault < 'info ,\n  u8 > ".toList ∧
      ColonsClear "state::Vault<'info,u8>".toList ∧
      SpacedAlike true " state :: Vault < 'info ,\n  u8 > ".toList
        "state::Vault<'info,u8>".toList := by
  have spaced : ColonsClear " state :: Vault < 'info ,\n  u8 > ".toList := by
    unfold ColonsClear
    decide
  have tight : ColonsClear "state::Vault<'info,u8>".toList := by
    unfold ColonsClear
    decide
  obtain ⟨alike, -⟩ := normalizeType_canonical spaced tight
  exact ⟨spaced, tight, alike.mp (by decide)⟩

end AnchorHarness.Rust
