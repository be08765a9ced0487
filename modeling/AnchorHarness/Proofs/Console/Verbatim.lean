import AnchorHarness.Proofs.Console.Escape

/-!
# Text that is shown as it is

A text in markup is shown as it is just if it has no bracket of the form of a tag, no backslash in
front of an opening bracket, and only characters that are shown. For whatever cutting makes of a
text, showing drops something of every bracket: a tag is left out, and one that is escaped loses a
backslash. So nothing that is dropped in one place is made up for in another.
-/

namespace AnchorHarness.Console

/-- The text has a bracket of the form of a tag. -/
def HoldsTag (cs : List Char) : Prop :=
  ∃ front body rest, cs = front ++ '[' :: (body ++ ']' :: rest) ∧ IsTag body

/-- A character that the console shows. -/
def IsVisible (c : Char) : Prop := c.toNat ∉ [7, 8, 11, 12, 13]

instance (c : Char) : Decidable (IsVisible c) := inferInstanceAs (Decidable (¬_))

/-- A character that stands for itself, whatever is around it. -/
def IsOrdinary (c : Char) : Prop := c ≠ '[' ∧ IsVisible c

instance (c : Char) : Decidable (IsOrdinary c) := inferInstanceAs (Decidable (_ ∧ _))

/-- Nothing in the text means anything else than itself. -/
structure IsVerbatim (cs : List Char) : Prop where
  tagless : ¬HoldsTag cs
  unescaped : ¬['\\', '['] <:+: cs
  visible : ∀ c ∈ cs, IsVisible c

/-! ### Tags -/

theorem HoldsTag.mono {cs ds : List Char} (h : HoldsTag cs) (inside : cs <:+: ds) :
    HoldsTag ds := by
  obtain ⟨front, body, rest, rfl, tag⟩ := h
  obtain ⟨before, after, rfl⟩ := inside
  exact ⟨before ++ front, body, rest ++ after, by simp, tag⟩

theorem HoldsTag.mem {cs : List Char} (h : HoldsTag cs) : '[' ∈ cs := by
  obtain ⟨front, body, rest, rfl, -⟩ := h
  simp

theorem holdsTag_of_leadingBracket? {cs body rest : List Char} {slashes : Nat}
    (h : leadingBracket? cs = some (slashes, body, rest)) : HoldsTag cs := by
  refine ⟨List.replicate slashes '\\', body, rest, ?_, isTag_of_leadingBracket? h⟩
  rw [← append_leadingBracket h]
  simp [bracketText]

theorem bracket_mem_consPlain {slashes : Nat} {body : List Char} (c : Char) (cs : List Chunk) :
    Chunk.bracket slashes body ∈ consPlain c cs ↔ Chunk.bracket slashes body ∈ cs := by
  unfold consPlain
  split <;> simp

theorem exists_bracket_of_holdsTag {cs : List Char} (h : HoldsTag cs) :
    ∃ slashes body, Chunk.bracket slashes body ∈ chunks cs := by
  fun_induction chunks cs with
  | case1 => exact absurd h.mem List.not_mem_nil
  | case2 c rest slashes body after found ih => exact ⟨slashes, body, List.mem_cons_self ..⟩
  | case3 c rest absent ih =>
    obtain ⟨front, body, behind, split, tag⟩ := h
    cases front with
    | nil =>
      -- A tag at the front would have been found there.
      have here := leadingBracket?_bracketText tag 0 behind
      have same : bracketText 0 body ++ behind = c :: rest := by simp [bracketText, split]
      rw [same, absent] at here
      cases here
    | cons d front =>
      obtain ⟨rfl, rfl⟩ := List.cons.inj split
      obtain ⟨slashes, found, there⟩ := ih ⟨front, body, behind, rfl, tag⟩
      exact ⟨slashes, found, (bracket_mem_consPlain c _).mpr there⟩

theorem chunks_of_tagless {cs : List Char} (tagless : ¬HoldsTag cs) (nonempty : cs ≠ []) :
    chunks cs = [.plain cs] := by
  fun_induction chunks cs with
  | case1 => contradiction
  | case2 c rest slashes body after found ih =>
    exact absurd (holdsTag_of_leadingBracket? found) tagless
  | case3 c rest absent ih =>
    have behind : ¬HoldsTag rest := fun h => tagless (h.mono (List.suffix_cons c rest).isInfix)
    cases rest with
    | nil =>
      rw [chunks]
      rfl
    | cons d rest =>
      rw [ih behind (List.cons_ne_nil d rest)]
      rfl

/-! ### Lengths -/

theorem length_dropSlashes_le (cs : List Char) : (dropSlashes cs).length ≤ cs.length := by
  fun_induction dropSlashes cs with
  | case1 cs ih =>
    simp only [List.length_cons]
    omega
  | case2 c cs _ ih =>
    simp only [List.length_cons]
    omega
  | case3 => exact Nat.le_refl _

theorem dropSlashes_of_unescaped {cs : List Char} (h : ¬['\\', '['] <:+: cs) :
    dropSlashes cs = cs := by
  fun_induction dropSlashes cs with
  | case1 cs ih => exact absurd ⟨[], cs, rfl⟩ h
  | case2 c cs _ ih =>
    have behind : ¬['\\', '['] <:+: cs := fun there =>
      h (there.trans (List.suffix_cons c cs).isInfix)
    rw [ih behind]
  | case3 => rfl

theorem length_dropSlashes_lt {cs : List Char} (h : ['\\', '['] <:+: cs) :
    (dropSlashes cs).length < cs.length := by
  fun_induction dropSlashes cs with
  | case1 cs ih =>
    have behind := length_dropSlashes_le cs
    simp only [List.length_cons]
    omega
  | case2 c cs other ih =>
    obtain front | there := List.infix_cons_iff.mp h
    · obtain ⟨rest, split⟩ := front
      obtain ⟨rfl, rfl⟩ := List.cons.inj split
      exact absurd rfl (other rest rfl)
    · have shorter := ih there
      simp only [List.length_cons]
      omega
  | case3 => simp at h

theorem length_shown_le (cs : List Char) : (shown cs).length ≤ cs.length := List.length_filter_le ..

theorem shown_eq_self_iff (cs : List Char) : shown cs = cs ↔ ∀ c ∈ cs, IsVisible c := by
  simp [shown, List.filter_eq_self, IsVisible]

def Chunk.isBracket : Chunk → Bool
  | .plain _ => false
  | .bracket .. => true

/-- Of every bracket at least one character is not shown. -/
theorem length_showChunks {position : Nat} {openTags : List (List Char)} {cs : List Chunk}
    {text : List Char} (h : showChunks position openTags cs = .ok text) :
    text.length + cs.countP Chunk.isBracket ≤ (cs.flatMap Chunk.text).length := by
  induction cs generalizing position openTags text with
  | nil =>
    cases h
    exact Nat.le_refl 0
  | cons chunk cs ih =>
    cases chunk with
    | plain front =>
      rw [showChunks_plain, Fallible.map_eq_ok] at h
      obtain ⟨behind, hb, rfl⟩ := h
      have rest := ih hb
      have dropped := length_dropSlashes_le front
      have hidden := length_shown_le (dropSlashes front)
      simp only [List.length_append, List.flatMap_cons, Chunk.text, List.countP_cons,
        Chunk.isBracket, Bool.false_eq_true, if_false]
      omega
    | bracket slashes body =>
      have hidden := length_shown_le ('[' :: (body ++ [']']))
      simp only [List.length_cons, List.length_append, List.length_nil] at hidden
      simp only [List.flatMap_cons, Chunk.text, bracketText, List.countP_cons, Chunk.isBracket,
        if_true, List.length_append, List.length_replicate, List.length_cons, List.length_nil]
      rw [showChunks] at h
      split at h
      · next odd =>
        obtain ⟨behind, hb, he⟩ := Fallible.bind_eq_ok.mp h
        cases he
        have rest := ih hb
        simp only [List.length_append, List.length_replicate]
        omega
      · obtain ⟨inner, -, h⟩ := Fallible.bind_eq_ok.mp h
        obtain ⟨behind, hb, he⟩ := Fallible.bind_eq_ok.mp h
        cases he
        have rest := ih hb
        simp only [List.length_append, List.length_replicate]
        omega

/-! ### Showing -/

theorem render_of_tagless {s : String} (tagless : ¬HoldsTag s.toList) :
    render s = .ok (String.ofList (shown (dropSlashes s.toList))) := by
  unfold render
  cases empty : s.toList with
  | nil =>
    rw [chunks]
    rfl
  | cons c cs =>
    rw [empty] at tagless
    rw [chunks_of_tagless tagless (List.cons_ne_nil c cs), showChunks_plain]
    exact congrArg (fun text => Except.ok (String.ofList text)) (List.append_nil _)

theorem length_render_lt {s text : String} (h : render s = .ok text) (tag : HoldsTag s.toList) :
    text.toList.length < s.toList.length := by
  obtain ⟨slashes, body, there⟩ := exists_bracket_of_holdsTag tag
  have counted : 0 < (chunks s.toList).countP Chunk.isBracket :=
    List.countP_pos_iff.mpr ⟨_, there, rfl⟩
  obtain ⟨cs, hc, rfl⟩ := Fallible.map_eq_ok.mp h
  have bound := length_showChunks hc
  rw [chunks_text] at bound
  rw [String.toList_ofList]
  omega

theorem render_ne_self {s : String} (tag : HoldsTag s.toList) : render s ≠ .ok s := fun h =>
  Nat.lt_irrefl _ (length_render_lt h tag)

theorem shown_dropSlashes_eq_self_iff (cs : List Char) :
    shown (dropSlashes cs) = cs ↔ ¬['\\', '['] <:+: cs ∧ ∀ c ∈ cs, IsVisible c := by
  constructor
  · intro same
    have unescaped : ¬['\\', '['] <:+: cs := by
      intro escaped
      have dropped := length_dropSlashes_lt escaped
      have hidden := length_shown_le (dropSlashes cs)
      rw [same] at hidden
      omega
    rw [dropSlashes_of_unescaped unescaped] at same
    exact ⟨unescaped, (shown_eq_self_iff cs).mp same⟩
  · rintro ⟨unescaped, visible⟩
    rw [dropSlashes_of_unescaped unescaped, (shown_eq_self_iff cs).mpr visible]

theorem render_eq_self_iff (s : String) : render s = .ok s ↔ IsVerbatim s.toList := by
  by_cases tag : HoldsTag s.toList
  · exact iff_of_false (render_ne_self tag) fun h => h.tagless tag
  · have text : render s = .ok s ↔ shown (dropSlashes s.toList) = s.toList := by
      rw [render_of_tagless tag, Except.ok.injEq, ← String.toList_inj, String.toList_ofList]
    rw [text, shown_dropSlashes_eq_self_iff]
    exact ⟨fun h => ⟨tag, h.1, h.2⟩, fun h => ⟨h.unescaped, h.visible⟩⟩

theorem isVerbatim_of_ordinary {cs : List Char} (ordinary : ∀ c ∈ cs, IsOrdinary c) :
    IsVerbatim cs := by
  have bracket : '[' ∉ cs := fun there => (ordinary _ there).1 rfl
  refine ⟨fun tag => bracket tag.mem, fun escaped => bracket (escaped.subset (by simp)), ?_⟩
  exact fun c there => (ordinary c there).2

theorem render_of_ordinary {s : String} (ordinary : ∀ c ∈ s.toList, IsOrdinary c) :
    render s = .ok s := (render_eq_self_iff s).mpr (isVerbatim_of_ordinary ordinary)

/-! ### Closing tags -/

theorem upToClosing_append_eq_none {cs tail : List Char} (h : upToClosing cs = none)
    (ends : upToClosing tail = none) : upToClosing (cs ++ tail) = none := by
  induction cs with
  | nil => exact ends
  | cons c cs ih =>
    rw [upToClosing] at h
    rw [List.cons_append, upToClosing]
    split_ifs at h ⊢
    · rfl
    · rw [ih (Option.map_eq_none_iff.mp h)]
      rfl

theorem tagBody?_append_eq_none {cs tail : List Char} (h : tagBody? cs = none)
    (ends : EndsTag tail) : tagBody? (cs ++ tail) = none := by
  cases cs with
  | nil =>
    cases tail with
    | nil => rfl
    | cons d tail => rw [List.nil_append, tagBody?, if_neg (by simp [ends.begins d rfl])]
  | cons c cs =>
    rw [tagBody?] at h
    rw [List.cons_append, tagBody?]
    split_ifs at h ⊢
    · rw [upToClosing_append_eq_none (Option.map_eq_none_iff.mp h) ends.closes]
      rfl
    · rfl

/-- Where no bracket stands, none is made by what comes behind. -/
theorem leadingBracket?_append_eq_none {c : Char} {rest tail : List Char}
    (h : leadingBracket? (c :: rest) = none) (ends : EndsTag tail)
    (plain : leadingBracket? tail = none) : leadingBracket? (c :: (rest ++ tail)) = none := by
  induction rest generalizing c with
  | nil =>
    by_cases slash : c = '\\'
    · subst slash
      rw [List.nil_append, leadingBracket?_slash, plain]
      rfl
    · rw [leadingBracket?_of_ne slash, tagBody?_append_eq_none rfl ends]
      exact ite_self none
  | cons d rest ih =>
    by_cases slash : c = '\\'
    · subst slash
      rw [leadingBracket?_slash, Option.map_eq_none_iff] at h
      rw [leadingBracket?_slash, List.cons_append, ih h]
      rfl
    · rw [leadingBracket?_of_ne slash] at h ⊢
      split_ifs at h ⊢
      · rw [tagBody?_append_eq_none (Option.map_eq_none_iff.mp h) ends]
        rfl
      · rfl

/-- Nothing but closing tags can keep a text from being shown in front of others. -/
theorem showable_of_unclosed {cs tail : List Char} (unclosed : ¬['[', '/'] <:+: cs)
    (ends : EndsTag tail) (plain : leadingBracket? tail = none)
    (h : ∀ openTags, Showable openTags (chunks tail)) (openTags : List (List Char)) :
    Showable openTags (chunks (cs ++ tail)) := by
  fun_induction chunks cs generalizing openTags with
  | case1 => exact h openTags
  | case2 c rest slashes body after found ih =>
    have split := append_leadingBracket found
    have behind : ¬['[', '/'] <:+: after := fun there =>
      unclosed (there.trans ⟨bracketText slashes body, [], by rw [List.append_nil, split]⟩)
    obtain ⟨d, inner, rfl, tag⟩ := isTag_of_leadingBracket? found
    have opens : d ≠ '/' := by
      rintro rfl
      refine unclosed ⟨List.replicate slashes '\\', inner ++ ']' :: after, ?_⟩
      rw [← split]
      simp [bracketText]
    rw [← split, List.append_assoc, chunks_bracketText ⟨d, inner, rfl, tag⟩]
    exact showable_bracket _ (fun position => afterTag_of_ne opens position inner openTags)
      (ih behind _) (ih behind _) slashes
  | case3 c rest absent ih =>
    have behind : ¬['[', '/'] <:+: rest := fun there =>
      unclosed (there.trans (List.suffix_cons c rest).isInfix)
    rw [List.cons_append, chunks_cons_of_none (leadingBracket?_append_eq_none absent ends plain)]
    exact showable_consPlain (ih behind openTags) c

/-- A closing tag closes the last one that is open, if it names it. -/
theorem afterTag_of_open {name : List Char} (named : (tagName name).isEmpty = false)
    (position : Nat) (openTags : List (List Char)) :
    afterTag position ('/' :: name) (tagName name :: openTags) = .ok openTags := by
  simp [afterTag, named]

theorem endsTag_nil : EndsTag [] := ⟨nofun, rfl⟩

theorem showable_chunks_nil (openTags : List (List Char)) : Showable openTags (chunks []) := by
  rw [chunks]
  exact showable_nil

/-- Between a tag and the one that closes it, a word without brackets can be shown. -/
theorem showable_between {openTags : List (List Char)} {c : Char} {name word rest : List Char}
    (begins : beginsTag c = true) (opens : c ≠ '/') (opening : '[' ∉ c :: name)
    (closing : ']' ∉ c :: name) (named : (tagName (c :: name)).isEmpty = false)
    (bracket : '[' ∉ word) (slash : '\\' ∉ word) (h : Showable openTags (chunks rest)) :
    Showable openTags (chunks
      ('[' :: c :: (name ++ ']' :: (word ++ '[' :: '/' :: (c :: name ++ ']' :: rest))))) := by
  refine showable_tag _ begins (fun there => opening (List.mem_cons_of_mem _ there))
    (fun there => closing (List.mem_cons_of_mem _ there))
    (fun position => afterTag_of_ne opens position name openTags) ?_
  refine showable_append bracket slash ?_
  exact showable_tag openTags (by decide) opening closing
    (fun position => afterTag_of_open named position openTags) h

theorem exists_render_of_showable {markup : String} (h : Showable [] (chunks markup.toList)) :
    ∃ text, render markup = .ok text := by
  obtain ⟨cs, hc⟩ := h 0
  exact ⟨String.ofList cs, by rw [render, hc]; rfl⟩

theorem exists_render_of_unclosed {s : String} (unclosed : ¬['[', '/'] <:+: s.toList) :
    ∃ text, render s = .ok text := by
  have shown := showable_of_unclosed unclosed endsTag_nil rfl showable_chunks_nil []
  rw [List.append_nil] at shown
  exact exists_render_of_showable shown

/-- A closing tag with a name comes before all other brackets, so that it closes nothing. -/
def ClosesUnopened (cs : List Char) : Prop :=
  ∃ front name rest, cs = front ++ '[' :: '/' :: (name ++ ']' :: rest) ∧
    '[' ∉ front ∧ '\\' ∉ front ∧ '[' ∉ name ∧ ']' ∉ name ∧ (tagName name).isEmpty = false

theorem ClosesUnopened.behind {cs front : List Char} (h : ClosesUnopened cs) (bracket : '[' ∉ front)
    (slash : '\\' ∉ front) : ClosesUnopened (front ++ cs) := by
  obtain ⟨others, name, rest, rfl, others_bracket, others_slash, tag⟩ := h
  refine ⟨front ++ others, name, rest, by simp, ?_, ?_, tag⟩
  · exact fun there => (List.mem_append.mp there).elim bracket others_bracket
  · exact fun there => (List.mem_append.mp there).elim slash others_slash

theorem ClosesUnopened.append {cs : List Char} (h : ClosesUnopened cs) (behind : List Char) :
    ClosesUnopened (cs ++ behind) := by
  obtain ⟨front, name, rest, rfl, tag⟩ := h
  exact ⟨front, name, rest ++ behind, by simp, tag⟩

theorem showChunks_of_unopened {cs : List Char} (h : ClosesUnopened cs) (position : Nat) :
    ∃ fault, showChunks position [] (chunks cs) = .error fault := by
  obtain ⟨front, name, rest, rfl, bracket, slash, opening, closing, named⟩ := h
  rw [chunks_append bracket slash, chunks_tag (by decide) opening closing]
  cases front with
  | nil => exact ⟨_, showChunks_of_fault (afterTag_of_unmatched named _) _⟩
  | cons c front =>
    rw [foldr_consPlain_bracket (List.cons_ne_nil c front), showChunks_plain,
      showChunks_of_fault (afterTag_of_unmatched named _)]
    exact ⟨_, rfl⟩

theorem render_of_unopened {s : String} (h : ClosesUnopened s.toList) :
    ∃ fault, render s = .error fault := by
  obtain ⟨fault, failed⟩ := showChunks_of_unopened h 0
  exact ⟨fault, by rw [render, failed]; rfl⟩

/-- A comment in front of a type can be taken for a closing tag. -/
example : render "seed: [/* zero */ u8; 32]" = .error (.unmatched "/* zero */ u8; 32" 6) := by cbv

end AnchorHarness.Console
