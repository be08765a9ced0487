import AnchorHarness.Proofs.Text.Borders
import Mathlib.Data.List.Basic

/-!
# From one case to another and back

A snake case name has the words of the name that it was made from, and so has an upper camel case
name, if each of these words has two characters or more and begins with a letter. The borders that
the words are read off lie between the words that were joined, and nowhere else.
-/

namespace AnchorHarness.Text

/-! ### Changing the case -/

theorem toNat_toUpper {c : Char} (h : isLower c = true) : c.toUpper.toNat + 32 = c.toNat := by
  have bounds := (isLower_iff c).mp h
  have inside : 'a'.val ≤ c.val ∧ c.val ≤ 'z'.val := bounds
  have shift : ('A'.val - 'a'.val).toNat = 4294967264 := by decide
  have value : c.val.toNat = c.toNat := rfl
  have shifted : c.toUpper.val = c.val + ('A'.val - 'a'.val) := by
    delta Char.toUpper
    rw [dif_pos inside]
  show c.toUpper.val.toNat + 32 = c.val.toNat
  rw [shifted, UInt32.toNat_add]
  omega

theorem toNat_toLower {c : Char} (h : isUpper c = true) : c.toLower.toNat = c.toNat + 32 := by
  have bounds := (isUpper_iff c).mp h
  have inside : 'A'.val ≤ c.val ∧ c.val ≤ 'Z'.val := bounds
  have shift : ('a'.val - 'A'.val).toNat = 32 := by decide
  have value : c.val.toNat = c.toNat := rfl
  have shifted : c.toLower.val = c.val + ('a'.val - 'A'.val) := by
    delta Char.toLower
    rw [dif_pos inside]
  show c.toLower.val.toNat = c.val.toNat + 32
  rw [shifted, UInt32.toNat_add]
  omega

theorem isUpper_toUpper {c : Char} (h : isLower c = true) : isUpper c.toUpper = true := by
  have bounds := (isLower_iff c).mp h
  have value := toNat_toUpper h
  rw [isUpper_iff]
  omega

theorem toLower_toUpper {c : Char} (h : isLower c = true) : c.toUpper.toLower = c := by
  have up := toNat_toUpper h
  have down := toNat_toLower (isUpper_toUpper h)
  apply Char.toNat_inj.mp
  omega

theorem toLower_of_isSmall {c : Char} (h : isSmall c = true) : c.toLower = c := by
  have outside : ¬('A'.val ≤ c.val ∧ c.val ≤ 'Z'.val) := by
    intro inside
    have capital : isUpper c = true := (isUpper_iff c).mpr inside
    rw [isUpper_eq_false h] at capital
    cases capital
  exact dif_neg outside

theorem isSmall_toLower {c : Char} (h : isWordCharacter c = true) : isSmall c.toLower = true := by
  rcases (isWordCharacter_iff c).mp h with h | h
  · have bounds := (isUpper_iff c).mp h
    have value := toNat_toLower h
    have lower : isLower c.toLower = true := by
      rw [isLower_iff]
      omega
    rw [isSmall, lower, Bool.true_or]
  · rw [toLower_of_isSmall h]
    exact h

/-! ### Words in lower case -/

/-- One or more small letters and digits. -/
structure IsSmallWord (w : List Char) : Prop where
  ne_nil : w ≠ []
  small : ∀ c ∈ w, isSmall c = true

theorem isSmallWord_of_mem {cs w : List Char} (h : w ∈ splitWords cs) : IsSmallWord w := by
  rw [splitWords_eq] at h
  obtain ⟨p, hp, rfl⟩ := List.mem_map.mp h
  obtain ⟨piece, filled⟩ := List.mem_filter.mp hp
  have ne_nil : p ≠ [] := by simpa using filled
  have kept : ∀ c ∈ p, isWordCharacter c = true := by
    intro c hc
    have there : c ∈ (pieces cs).flatten := List.mem_flatten.mpr ⟨p, piece, hc⟩
    rw [flatten_pieces] at there
    exact (List.mem_filter.mp there).2
  refine ⟨by simpa using ne_nil, fun c hc => ?_⟩
  obtain ⟨d, hd, rfl⟩ := List.mem_map.mp hc
  exact isSmall_toLower (kept d hd)

theorem IsSmallWord.map_toLower {w : List Char} (h : IsSmallWord w) : w.map Char.toLower = w :=
  (List.map_congr_left fun c hc => toLower_of_isSmall (h.small c hc)).trans (List.map_id w)

theorem splitWords_of_pieces {cs : List Char} {ws : List (List Char)} {write : List Char → List Char}
    (cut : pieces cs = ws.map write)
    (undone : ∀ w ∈ ws, write w ≠ [] ∧ (write w).map Char.toLower = w) : splitWords cs = ws := by
  have filled : (ws.map write).filter (fun p => !p.isEmpty) = ws.map write := by
    apply List.filter_eq_self.mpr
    intro p hp
    obtain ⟨w, hw, rfl⟩ := List.mem_map.mp hp
    simpa using (undone w hw).1
  rw [splitWords_eq, cut, filled, List.map_map]
  exact (List.map_congr_left fun w hw => (undone w hw).2).trans (List.map_id ws)

/-! ### Pieces of joined words -/

theorem pieces_inside {c d : Char} (kept : isWordCharacter c = true) (small : isSmall d = true)
    (rest : List Char) : pieces (c :: d :: rest) = consToFirst c (pieces (d :: rest)) := by
  have capital : isUpper d = false := isUpper_eq_false small
  have border : isBorder c (d :: rest) = false := by
    show (isSmall c && isUpper d || isUpper c && isUpper d && rest.head?.any isLower) = false
    rw [capital, Bool.and_false, Bool.and_false, Bool.false_and, Bool.or_self]
  rw [pieces, kept, border]
  rfl

theorem pieces_append {x : Char} {rest : List Char} {tail : List (List Char)}
    (last : pieces (x :: rest) = [x] :: tail) (small : isSmall x = true) {v : List Char}
    (front : ∀ c ∈ v, isSmall c = true) : pieces (v ++ x :: rest) = (v ++ [x]) :: tail := by
  induction v with
  | nil => exact last
  | cons c v ih =>
    have kept : isWordCharacter c = true :=
      (isWordCharacter_iff c).mpr (.inr (front c (List.mem_cons_self ..)))
    have behind := ih fun d hd => front d (List.mem_cons_of_mem c hd)
    cases v with
    | nil =>
      rw [List.cons_append, List.nil_append, pieces_inside kept small, last]
      rfl
    | cons d v =>
      have inner : isSmall d = true := front d (by simp)
      rw [List.cons_append] at behind ⊢
      rw [List.cons_append, pieces_inside kept inner, behind]
      rfl

theorem pieces_last_end {x : Char} (small : isSmall x = true) : pieces [x] = [[x]] := by
  have kept : isWordCharacter x = true := (isWordCharacter_iff x).mpr (.inr small)
  have border : isBorder x [] = false := by
    show (isSmall x && false || false) = false
    rw [Bool.and_false, Bool.or_self]
  rw [pieces, kept, border]
  rfl

theorem pieces_last_separator {x : Char} (small : isSmall x = true) (rest : List Char) :
    pieces (x :: '_' :: rest) = [x] :: pieces rest := by
  have kept : isWordCharacter x = true := (isWordCharacter_iff x).mpr (.inr small)
  have border : isBorder x ('_' :: rest) = false := by
    show (isSmall x && false || isUpper x && false && rest.head?.any isLower) = false
    rw [Bool.and_false, Bool.and_false, Bool.false_and, Bool.or_self]
  have dropped : pieces ('_' :: rest) = [] :: pieces rest := rfl
  rw [pieces, kept, border, dropped]
  rfl

theorem pieces_last_capital {x d : Char} (small : isSmall x = true) (capital : isUpper d = true)
    (rest : List Char) : pieces (x :: d :: rest) = [x] :: pieces (d :: rest) := by
  have kept : isWordCharacter x = true := (isWordCharacter_iff x).mpr (.inr small)
  have border : isBorder x (d :: rest) = true := by
    show (isSmall x && isUpper d || _) = true
    rw [small, capital, Bool.and_self, Bool.true_or]
  rw [pieces, kept, border]
  rfl

theorem IsSmallWord.exists_last {w : List Char} (h : IsSmallWord w) :
    ∃ v x, w = v ++ [x] ∧ isSmall x = true ∧ ∀ c ∈ v, isSmall c = true := by
  refine ⟨w.dropLast, w.getLast h.ne_nil, ?_, ?_, ?_⟩
  · exact (List.dropLast_append_getLast h.ne_nil).symm
  · exact h.small _ (List.getLast_mem h.ne_nil)
  · intro c hc
    exact h.small c (List.dropLast_subset w hc)

/-! ### Snake case -/

theorem pieces_intercalate {ws : List (List Char)} (small : ∀ w ∈ ws, IsSmallWord w) (ne : ws ≠ []) :
    pieces (['_'].intercalate ws) = ws := by
  -- Only the last character of a word meets the separator, so each word is split there.
  induction ws with
  | nil => exact absurd rfl ne
  | cons w ws ih =>
    obtain ⟨v, x, rfl, last, front⟩ := (small w (List.mem_cons_self ..)).exists_last
    cases ws with
    | nil =>
      rw [List.intercalate_singleton]
      exact pieces_append (pieces_last_end last) last front
    | cons u ws =>
      have rest := ih (fun t ht => small t (List.mem_cons_of_mem _ ht)) (List.cons_ne_nil u ws)
      have cut := pieces_append (pieces_last_separator last (['_'].intercalate (u :: ws))) last front
      rw [rest] at cut
      rw [List.intercalate_cons_cons, List.append_assoc, List.append_assoc]
      exact cut

theorem splitWords_intercalate {ws : List (List Char)} (small : ∀ w ∈ ws, IsSmallWord w) :
    splitWords (['_'].intercalate ws) = ws := by
  cases ws with
  | nil => rw [splitWords_eq]; rfl
  | cons w ws =>
    have cut : pieces (['_'].intercalate (w :: ws)) = (w :: ws).map id := by
      rw [pieces_intercalate small (List.cons_ne_nil w ws), List.map_id]
    apply splitWords_of_pieces cut
    intro u hu
    exact ⟨(small u hu).ne_nil, (small u hu).map_toLower⟩

/-! ### Upper camel case -/

/-- A small word of two characters or more that begins with a letter. -/
structure IsNameWord (w : List Char) : Prop extends IsSmallWord w where
  letter : ∀ c ∈ w.head?, isLower c = true
  long : 2 ≤ w.length

theorem IsNameWord.exists_parts {w : List Char} (h : IsNameWord w) :
    ∃ a v x, w = a :: (v ++ [x]) ∧ isLower a = true ∧ isSmall x = true ∧
      ∀ c ∈ v, isSmall c = true := by
  match w, h with
  | [], h => exact absurd rfl h.ne_nil
  | [a], h =>
    have long := h.long
    rw [List.length_singleton] at long
    omega
  | a :: b :: w, h =>
    have behind : IsSmallWord (b :: w) :=
      ⟨List.cons_ne_nil b w, fun c hc => h.small c (List.mem_cons_of_mem a hc)⟩
    obtain ⟨v, x, parts, last, front⟩ := behind.exists_last
    exact ⟨a, v, x, congrArg (a :: ·) parts, h.letter a rfl, last, front⟩

theorem IsNameWord.map_toLower_capitalized {w : List Char} (h : IsNameWord w) :
    (capitalized w).map Char.toLower = w := by
  obtain ⟨a, v, x, rfl, letter, last, front⟩ := h.exists_parts
  have rest : IsSmallWord (v ++ [x]) := ⟨by simp, fun c hc => h.small c (List.mem_cons_of_mem a hc)⟩
  rw [capitalized, List.map_cons, toLower_toUpper letter, rest.map_toLower]

/-- A capitalized word in front of a text that its last character is cut from. -/
theorem pieces_capitalized_append {a x : Char} {v rest : List Char} {tail : List (List Char)}
    (letter : isLower a = true) (small : isSmall x = true) (front : ∀ c ∈ v, isSmall c = true)
    (last : pieces (x :: rest) = [x] :: tail) :
    pieces (capitalized (a :: (v ++ [x])) ++ rest) = capitalized (a :: (v ++ [x])) :: tail := by
  -- A word of one character would have no small letter behind its capital.
  have kept : isWordCharacter a.toUpper = true :=
    (isWordCharacter_iff _).mpr (.inl (isUpper_toUpper letter))
  have behind := pieces_append last small front
  have text : capitalized (a :: (v ++ [x])) ++ rest = a.toUpper :: (v ++ x :: rest) := by
    simp [capitalized]
  rw [text]
  cases v with
  | nil =>
    rw [List.nil_append, pieces_inside kept small, last]
    rfl
  | cons d v =>
    have inner : isSmall d = true := front d (List.mem_cons_self ..)
    rw [List.cons_append] at behind ⊢
    rw [pieces_inside kept inner, behind]
    rfl

theorem pieces_flatten {ws : List (List Char)} (names : ∀ w ∈ ws, IsNameWord w) (ne : ws ≠ []) :
    pieces (ws.map capitalized).flatten = ws.map capitalized := by
  induction ws with
  | nil => exact absurd rfl ne
  | cons w ws ih =>
    obtain ⟨a, v, x, rfl, letter, last, front⟩ := (names w (List.mem_cons_self ..)).exists_parts
    rw [List.map_cons, List.flatten_cons]
    cases ws with
    | nil => exact pieces_capitalized_append letter last front (pieces_last_end last)
    | cons u ws =>
      have rest := ih (fun t ht => names t (List.mem_cons_of_mem _ ht)) (List.cons_ne_nil u ws)
      obtain ⟨b, t, y, rfl, next, -, -⟩ := (names u (by simp)).exists_parts
      have cut := pieces_last_capital last (isUpper_toUpper next)
        (t ++ [y] ++ (ws.map capitalized).flatten)
      exact pieces_capitalized_append letter last front (cut.trans (congrArg ([x] :: ·) rest))

theorem splitWords_flatten {ws : List (List Char)} (names : ∀ w ∈ ws, IsNameWord w) :
    splitWords (ws.map capitalized).flatten = ws := by
  cases ws with
  | nil => rw [splitWords_eq]; rfl
  | cons w ws =>
    apply splitWords_of_pieces (pieces_flatten names (List.cons_ne_nil w ws))
    intro u hu
    obtain ⟨a, v, x, rfl, -⟩ := (names u hu).exists_parts
    exact ⟨List.cons_ne_nil _ _, (names _ hu).map_toLower_capitalized⟩

/-! ### The letters of an upper camel case name -/

theorem isWordCharacter_toUpper {c : Char} (h : isSmall c = true) :
    isWordCharacter c.toUpper = true ∧ isLower c.toUpper = false := by
  by_cases letter : isLower c = true
  · have upper := isUpper_toUpper letter
    have bounds := (isUpper_iff _).mp upper
    have other : ¬isLower c.toUpper = true := by
      rw [isLower_iff]
      omega
    exact ⟨(isWordCharacter_iff _).mpr (.inl upper), Bool.eq_false_iff.mpr other⟩
  · have outside : ¬('a'.val ≤ c.val ∧ c.val ≤ 'z'.val) := fun inside =>
      letter ((isLower_iff c).mpr inside)
    have same : c.toUpper = c := dif_neg outside
    rw [same]
    exact ⟨(isWordCharacter_iff c).mpr (.inr h), Bool.eq_false_iff.mpr letter⟩

theorem IsSmallWord.exists_capitalized {w : List Char} (h : IsSmallWord w) :
    ∃ c rest, capitalized w = c :: rest ∧ isLower c = false ∧
      ∀ d ∈ c :: rest, isWordCharacter d = true := by
  match w, h with
  | [], h => exact absurd rfl h.ne_nil
  | c :: w, h =>
    obtain ⟨kept, capital⟩ := isWordCharacter_toUpper (h.small c (List.mem_cons_self ..))
    refine ⟨c.toUpper, w, rfl, capital, fun d hd => ?_⟩
    rcases List.mem_cons.mp hd with rfl | hd
    · exact kept
    · exact (isWordCharacter_iff d).mpr (.inr (h.small d (List.mem_cons_of_mem c hd)))

theorem isWordCharacter_of_mem_upperCamelCase {s : String} {c : Char}
    (h : c ∈ (upperCamelCase s).toList) : isWordCharacter c = true := by
  rw [upperCamelCase, String.toList_ofList] at h
  obtain ⟨p, hp, hc⟩ := List.mem_flatten.mp h
  obtain ⟨w, hw, rfl⟩ := List.mem_map.mp hp
  obtain ⟨d, rest, written, -, kept⟩ := (isSmallWord_of_mem hw).exists_capitalized
  exact kept c (written ▸ hc)

theorem isLower_of_head?_upperCamelCase {s : String} {c : Char}
    (h : (upperCamelCase s).toList.head? = some c) : isLower c = false := by
  rw [upperCamelCase, String.toList_ofList] at h
  cases words : splitWords s.toList with
  | nil =>
    rw [words] at h
    cases h
  | cons w ws =>
    have small : IsSmallWord w := isSmallWord_of_mem (words ▸ List.mem_cons_self ..)
    obtain ⟨d, rest, written, capital, -⟩ := small.exists_capitalized
    rw [words, List.map_cons, List.flatten_cons, written] at h
    exact Option.some.inj h ▸ capital

/-- The text has a small letter in front, or a character that is neither a letter nor a digit. -/
def IsNoTypeName (s : String) : Prop :=
  s.toList.head?.any isLower = true ∨ ∃ c ∈ s.toList, isWordCharacter c = false

instance (s : String) : Decidable (IsNoTypeName s) :=
  inferInstanceAs (Decidable (_ ∨ ∃ c ∈ s.toList, isWordCharacter c = false))

theorem IsNoTypeName.ne_upperCamelCase {s : String} (h : IsNoTypeName s) (t : String) :
    upperCamelCase t ≠ s := by
  rintro rfl
  rcases h with letter | ⟨c, there, other⟩
  · obtain ⟨c, first, lower⟩ := (Option.any_eq_true ..).mp letter
    rw [isLower_of_head?_upperCamelCase first] at lower
    cases lower
  · rw [isWordCharacter_of_mem_upperCamelCase there] at other
    cases other

/-! ### Names -/

/-- Every word of a name has two characters or more and begins with a letter. -/
def HasLongWords (s : String) : Prop :=
  ∀ w ∈ words s, 2 ≤ w.length ∧ w.toList.head?.any (fun c => isUpper c || isLower c) = true

instance (s : String) : Decidable (HasLongWords s) :=
  inferInstanceAs (Decidable (∀ w ∈ words s, _))

theorem isNameWord_of_hasLongWords {s : String} (long : HasLongWords s) :
    ∀ w ∈ splitWords s.toList, IsNameWord w := by
  intro w hw
  have small := isSmallWord_of_mem hw
  obtain ⟨length, letter⟩ := long (String.ofList w) (List.mem_map_of_mem hw)
  rw [String.length_ofList] at length
  rw [String.toList_ofList] at letter
  refine ⟨small, fun c hc => ?_, length⟩
  rw [Option.mem_def.mp hc] at letter
  have capital : isUpper c = false := isUpper_eq_false (small.small c (List.mem_of_mem_head? hc))
  simpa [capital] using letter

theorem words_snakeCase (s : String) : words (snakeCase s) = words s := by
  have small : ∀ w ∈ splitWords s.toList, IsSmallWord w := fun w hw => isSmallWord_of_mem hw
  rw [words, snakeCase, String.toList_ofList, splitWords_intercalate small]
  rfl

theorem splitWords_eq_of_words {s t : String} (same : words s = words t) :
    splitWords s.toList = splitWords t.toList :=
  (List.map_injective_iff.mpr fun _ _ h => String.ofList_inj.mp h) same

theorem snakeCase_congr {s t : String} (same : words s = words t) : snakeCase s = snakeCase t := by
  rw [snakeCase, splitWords_eq_of_words same, ← snakeCase]

theorem upperCamelCase_congr {s t : String} (same : words s = words t) :
    upperCamelCase s = upperCamelCase t := by
  rw [upperCamelCase, splitWords_eq_of_words same, ← upperCamelCase]

theorem words_upperCamelCase {s : String} (long : HasLongWords s) :
    words (upperCamelCase s) = words s := by
  have names := isNameWord_of_hasLongWords long
  rw [words, upperCamelCase, String.toList_ofList, splitWords_flatten names]
  rfl

/-- The snake case form of a name has the words of the name, and so the same snake case and camel
case. Camel case keeps the words as well if all of them are long, and such names that agree in camel
case agree in snake case. -/
theorem caseVariants_convert (s : String) :
    words (snakeCase s) = words s ∧
      snakeCase (snakeCase s) = snakeCase s ∧
      upperCamelCase (snakeCase s) = upperCamelCase s ∧
      (HasLongWords s → words (upperCamelCase s) = words s) ∧
      ∀ t, HasLongWords s → HasLongWords t → upperCamelCase s = upperCamelCase t →
        snakeCase s = snakeCase t := by
  have snake := words_snakeCase s
  refine ⟨snake, snakeCase_congr snake, upperCamelCase_congr snake, words_upperCamelCase, ?_⟩
  intro t long long' same
  have words : words s = words t := by
    rw [← words_upperCamelCase long, same, words_upperCamelCase long']
  exact snakeCase_congr words

/-- A name with an acronym and a digit, and another one with the same words. -/
theorem caseVariants_convert_server :
    HasLongWords "runHTTPServer2" ∧ HasLongWords "run_http-server2" ∧
      upperCamelCase "runHTTPServer2" = "RunHttpServer2" ∧
      words (upperCamelCase "runHTTPServer2") = words "runHTTPServer2" ∧
      snakeCase "runHTTPServer2" = snakeCase "run_http-server2" := by
  have long : HasLongWords "runHTTPServer2" := by decide +kernel
  have long' : HasLongWords "run_http-server2" := by decide +kernel
  have same : upperCamelCase "runHTTPServer2" = upperCamelCase "run_http-server2" := by
    decide +kernel
  obtain ⟨-, -, -, camel, snake⟩ := caseVariants_convert "runHTTPServer2"
  exact ⟨long, long', by decide +kernel, camel long, snake _ long long' same⟩

end AnchorHarness.Text
