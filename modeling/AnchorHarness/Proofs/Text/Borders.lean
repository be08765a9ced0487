import AnchorHarness.Text.Words
import Mathlib.Data.List.TakeWhile

/-!
# Borders inside an identifier

The words of an identifier are marked in two passes and then cut out. They are told here in one pass
that looks at a character and the two behind it: a text is cut at every character of no word, in
front of a capital behind a small letter or a digit, and in front of the last capital of a run that
a small letter follows.
-/

namespace AnchorHarness.Text

/-- What may stand behind the first character of a word in lower case. -/
def isSmall (c : Char) : Bool := isLower c || isDigit c

/-- A small letter or digit in front of a capital. -/
def endsSmall (c : Char) (rest : List Char) : Bool := isSmall c && rest.head?.any isUpper

/-- A capital in front of a capital that has a small letter behind it. -/
def endsAcronym (c : Char) : List Char → Bool
  | d :: rest => isUpper c && isUpper d && rest.head?.any isLower
  | [] => false

def isBorder (c : Char) (rest : List Char) : Bool := endsSmall c rest || endsAcronym c rest

/-- The pieces of a text, without the characters of no word. -/
def pieces : List Char → List (List Char)
  | [] => [[]]
  | c :: cs =>
    if !isWordCharacter c then [] :: pieces cs
    else if isBorder c cs then [c] :: pieces cs
    else consToFirst c (pieces cs)

/-! ### Classes of characters -/

theorem isUpper_iff (c : Char) : isUpper c = true ↔ 65 ≤ c.toNat ∧ c.toNat ≤ 90 := by
  unfold isUpper
  rw [Bool.and_eq_true, decide_eq_true_eq, decide_eq_true_eq]
  exact Iff.rfl

theorem isLower_iff (c : Char) : isLower c = true ↔ 97 ≤ c.toNat ∧ c.toNat ≤ 122 := by
  unfold isLower
  rw [Bool.and_eq_true, decide_eq_true_eq, decide_eq_true_eq]
  exact Iff.rfl

theorem isDigit_iff (c : Char) : isDigit c = true ↔ 48 ≤ c.toNat ∧ c.toNat ≤ 57 := by
  unfold isDigit
  rw [Bool.and_eq_true, decide_eq_true_eq, decide_eq_true_eq]
  exact Iff.rfl

theorem isUpper_eq_false {c : Char} (h : isSmall c = true) : isUpper c = false := by
  rw [isSmall, Bool.or_eq_true, isLower_iff, isDigit_iff] at h
  rw [Bool.eq_false_iff, Ne, isUpper_iff]
  omega

theorem isWordCharacter_iff (c : Char) :
    isWordCharacter c = true ↔ isUpper c = true ∨ isSmall c = true := by
  rw [isWordCharacter, isSmall, Bool.or_assoc, Bool.or_eq_true]

theorem isWordCharacter_of_isBorder {c : Char} {rest : List Char} (h : isBorder c rest = true) :
    isWordCharacter c = true := by
  rw [isBorder, Bool.or_eq_true] at h
  rw [isWordCharacter_iff]
  rcases h with h | h
  · rw [endsSmall, Bool.and_eq_true] at h
    exact .inr h.1
  · cases rest with
    | nil => cases h
    | cons d rest =>
      rw [endsAcronym, Bool.and_eq_true, Bool.and_eq_true] at h
      exact .inl h.1.1

/-! ### The first pass -/

section

variable {run rest : List Char} (all : ∀ c ∈ run, isUpper c = true)
  (stops : ∀ d ∈ rest.head?, isUpper d = false)
include all stops

theorem takeWhile_run : (run ++ rest).takeWhile isUpper = run := by
  rw [List.takeWhile_append_of_pos all]
  cases rest with
  | nil => exact List.append_nil run
  | cons d rest => rw [List.takeWhile_cons_of_neg (by simp [stops d rfl]), List.append_nil]

theorem dropWhile_run : (run ++ rest).dropWhile isUpper = rest := by
  rw [List.dropWhile_append_of_pos all]
  cases rest with
  | nil => rfl
  | cons d rest => rw [List.dropWhile_cons_of_neg (by simp [stops d rfl])]

/-- A run of capitals is marked apart from what follows it. -/
theorem markAcronyms_run :
    markAcronyms (run ++ rest) =
      (if rest.head?.any isLower then markLast run else run) ++ markAcronyms rest := by
  cases run with
  | nil =>
    rw [markLast, ite_self]
    rfl
  | cons c run =>
    have first : isUpper c = true := all c (List.mem_cons_self ..)
    have front : ∀ x ∈ run, isUpper x = true := fun x hx => all x (List.mem_cons_of_mem c hx)
    have taken := takeWhile_run front stops
    have left := dropWhile_run front stops
    rw [List.cons_append, markAcronyms, if_pos first, taken]
    split
    · next none =>
      rw [left] at none
      rw [none, markAcronyms, List.append_nil]
      rfl
    · next d behind found =>
      rw [left] at found
      subst found
      have behindRun : markAcronyms (d :: behind) = d :: markAcronyms behind := by
        rw [markAcronyms, if_neg (by simp [stops d rfl])]
      rw [behindRun]
      rfl

/-- Of the capitals of a run, the last but one is the one in front of a border. -/
theorem markLast_cons {c : Char} (first : isUpper c = true) :
    (if rest.head?.any isLower then markLast (c :: run) else c :: run) =
      (if endsAcronym c (run ++ rest) then [c, '_'] else [c]) ++
        if rest.head?.any isLower then markLast run else run := by
  cases run with
  | nil =>
    have inside : endsAcronym c ([] ++ rest) = false := by
      cases rest with
      | nil => rfl
      | cons d rest =>
        show (isUpper c && isUpper d && rest.head?.any isLower) = false
        rw [stops d rfl, Bool.and_false, Bool.false_and]
    rw [inside, markLast, markLast, ite_self, ite_self]
    rfl
  | cons d run =>
    cases run with
    | nil =>
      have last : endsAcronym c ([d] ++ rest) = rest.head?.any isLower := by
        show (isUpper c && isUpper d && rest.head?.any isLower) = _
        rw [first, all d (List.mem_singleton_self d), Bool.and_self, Bool.true_and]
      rw [last]
      cases rest.head?.any isLower <;> rfl
    | cons e run =>
      have capital : isUpper e = true := all e (by simp)
      have inside : endsAcronym c (d :: e :: run ++ rest) = false := by
        show (isUpper c && isUpper d && isLower e) = false
        have other : isLower e = false := by
          rw [isUpper_iff] at capital
          rw [Bool.eq_false_iff, Ne, isLower_iff]
          omega
        rw [other, Bool.and_false]
      rw [inside]
      cases rest.head?.any isLower <;> rfl

end

theorem exists_run (cs : List Char) :
    ∃ run rest, cs = run ++ rest ∧ (∀ c ∈ run, isUpper c = true) ∧
      ∀ d ∈ rest.head?, isUpper d = false := by
  refine ⟨cs.takeWhile isUpper, cs.dropWhile isUpper, ?_, ?_, ?_⟩
  · exact (List.takeWhile_append_dropWhile).symm
  · intro c hc
    exact List.mem_takeWhile_imp hc
  · intro d hd
    have stops := List.head?_dropWhile_not isUpper cs
    rw [Option.mem_def.mp hd] at stops
    simpa using stops

theorem markAcronyms_cons (c : Char) (cs : List Char) :
    markAcronyms (c :: cs) =
      if endsAcronym c cs then c :: '_' :: markAcronyms cs else c :: markAcronyms cs := by
  cases hc : isUpper c with
  | false =>
    have inside : endsAcronym c cs = false := by
      cases cs with
      | nil => rfl
      | cons d cs => rw [endsAcronym, hc, Bool.false_and, Bool.false_and]
    rw [markAcronyms, if_neg (by simp [hc]), inside, if_neg (by decide)]
  | true =>
    obtain ⟨run, rest, rfl, all, stops⟩ := exists_run cs
    have whole : ∀ x ∈ c :: run, isUpper x = true := List.forall_mem_cons.mpr ⟨hc, all⟩
    rw [← List.cons_append, markAcronyms_run whole stops, markAcronyms_run all stops,
      markLast_cons all stops hc, List.append_assoc]
    split <;> rfl

theorem head?_markAcronyms (cs : List Char) : (markAcronyms cs).head? = cs.head? := by
  cases cs with
  | nil => simp [markAcronyms]
  | cons c cs =>
    rw [markAcronyms_cons]
    split <;> rfl

/-! ### Both passes -/

theorem markCapitals_cons (c : Char) (cs : List Char) :
    markCapitals (c :: cs) =
      if endsSmall c cs then c :: '_' :: markCapitals cs else c :: markCapitals cs := by
  cases cs with
  | nil => simp [markCapitals, endsSmall]
  | cons d cs => rfl

def markBorders : List Char → List Char
  | [] => []
  | c :: cs => if isBorder c cs then c :: '_' :: markBorders cs else c :: markBorders cs

theorem markCapitals_markAcronyms (cs : List Char) :
    markCapitals (markAcronyms cs) = markBorders cs := by
  induction cs with
  | nil => simp [markAcronyms, markCapitals, markBorders]
  | cons c cs ih =>
    rw [markAcronyms_cons, markBorders, isBorder]
    cases acronym : endsAcronym c cs with
    | true =>
      -- The underscore of the first pass is no place for the second one.
      have before (rest : List Char) : endsSmall c ('_' :: rest) = false := by
        show (isSmall c && isUpper '_') = false
        rw [show isUpper '_' = false by decide, Bool.and_false]
      have behind (rest : List Char) : endsSmall '_' rest = false := rfl
      rw [if_pos rfl, markCapitals_cons, before, markCapitals_cons, behind, ih, Bool.or_true]
      rfl
    | false =>
      have same : endsSmall c (markAcronyms cs) = endsSmall c cs := by
        rw [endsSmall, head?_markAcronyms]
        rfl
      rw [if_neg (by decide), markCapitals_cons, same, ih, Bool.or_false]

/-! ### Cutting -/

theorem cutAll_markBorders (cs : List Char) :
    cutAll (fun c => !isWordCharacter c) (markBorders cs) = pieces cs := by
  induction cs with
  | nil => rfl
  | cons c cs ih =>
    rw [markBorders, pieces]
    cases border : isBorder c cs with
    | true =>
      have kept : isWordCharacter c = true := isWordCharacter_of_isBorder border
      have dropped : isWordCharacter '_' = false := by decide
      simp only [cutAll, kept, dropped, ih, Bool.not_true, Bool.not_false, if_true, if_false,
        Bool.false_eq_true, consToFirst]
    | false => simp only [cutAll, ih, if_false, Bool.false_eq_true]

theorem splitWords_eq (cs : List Char) :
    splitWords cs = ((pieces cs).filter fun p => !p.isEmpty).map fun p => p.map Char.toLower := by
  unfold splitWords
  rw [markCapitals_markAcronyms, cutAll_markBorders]

theorem flatten_consToFirst {α : Type} (a : α) (ps : List (List α)) :
    (consToFirst a ps).flatten = a :: ps.flatten := by
  cases ps <;> rfl

/-- The pieces hold the letters and digits of the text, each of them once and in order. -/
theorem flatten_pieces (cs : List Char) : (pieces cs).flatten = cs.filter isWordCharacter := by
  induction cs with
  | nil => rfl
  | cons c cs ih =>
    rw [pieces]
    cases kept : isWordCharacter c with
    | false =>
      rw [Bool.not_false, if_pos rfl, List.flatten_cons, ih, List.filter_cons_of_neg (by simp [kept])]
      rfl
    | true =>
      rw [Bool.not_true, if_neg (by decide), List.filter_cons_of_pos kept, ← ih]
      split
      · rfl
      · exact flatten_consToFirst c (pieces cs)

theorem flatten_splitWords (cs : List Char) :
    (splitWords cs).flatten = (cs.filter isWordCharacter).map Char.toLower := by
  rw [splitWords_eq, ← List.map_flatten, List.flatten_filter_not_isEmpty, flatten_pieces]

/-- The words of a text are its pieces between borders, in small letters and without the empty
ones. Joined again, they are all of its letters and digits. -/
theorem words_bordered (s : String) :
    words s =
        ((pieces s.toList).filter fun p => !p.isEmpty).map
          (fun p => String.ofList (p.map Char.toLower)) ∧
      String.join (words s) =
        String.ofList ((s.toList.filter isWordCharacter).map Char.toLower) := by
  constructor
  · rw [words, splitWords_eq, List.map_map]
    rfl
  · apply String.toList_inj.mp
    rw [String.toList_join, String.toList_ofList, ← flatten_splitWords, words, List.flatMap_map]
    simp only [String.toList_ofList, List.flatMap_id']

/-- Borders of both kinds, and a digit inside a word. -/
example : splitWords "HTTPServer2Go-fast".toList =
    ["http".toList, "server2".toList, "go".toList, "fast".toList] := by
  simp only [splitWords_eq]
  decide

end AnchorHarness.Text
