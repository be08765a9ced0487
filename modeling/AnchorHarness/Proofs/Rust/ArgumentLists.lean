import AnchorHarness.Proofs.Rust.ArgumentText
import AnchorHarness.Text.Cut

/-!
# Joined arguments

Cutting an argument list and joining its arguments with commas undo each other. Arguments with as
many closing as opening brackets, and with no comma outside of these, come back as they were joined.
Whatever the text, its arguments joined again give the text, but for the blanks that are trimmed and
for a blank argument at the end.
-/

namespace AnchorHarness.Rust

open Text (trimmed consToFirst)

/-! ### Depth -/

def isOpening (c : Char) : Bool := c = '(' || c = '[' || c = '\x7b'

def isClosing (c : Char) : Bool := c = ')' || c = ']' || c = '\x7d'

theorem depthChange_eq (c : Char) :
    depthChange c = (if isOpening c then 1 else 0) - (if isClosing c then 1 else 0) := by
  have written : depthChange c = if isOpening c then 1 else if isClosing c then -1 else 0 := rfl
  rw [written]
  by_cases opens : isOpening c = true
  · have other : isClosing c = false := by
      simp only [isOpening, Bool.or_eq_true, decide_eq_true_eq] at opens
      rcases opens with (rfl | rfl) | rfl <;> rfl
    rw [if_pos opens, if_pos opens, other]
    rfl
  · rw [if_neg opens, if_neg opens]
    split <;> rfl

theorem nesting_eq (cs : List Char) :
    nesting cs = (cs.countP isOpening : Int) - cs.countP isClosing := by
  induction cs with
  | nil => rfl
  | cons c cs ih =>
    rw [nesting, ih, depthChange_eq, List.countP_cons, List.countP_cons]
    split <;> split <;> omega

/-- No comma stands outside of every bracket just if the text in front of each one has a depth. -/
theorem behindCommas_eq_nil_iff (depth : Int) (cs : List Char) :
    behindCommas depth cs = [] ↔
      ∀ front rest, cs = front ++ ',' :: rest → depth + nesting front ≠ 0 := by
  -- The depth of the cut is that of the whole text in front, so the induction is over every depth.
  induction cs generalizing depth with
  | nil => simp [behindCommas]
  | cons c cs ih =>
    have further (front : List Char) :
        depth + depthChange c + nesting front = depth + nesting (c :: front) := by
      rw [nesting]
      omega
    rw [behindCommas]
    split
    · next cut =>
      obtain ⟨rfl, rfl⟩ := cut
      constructor
      · intro none
        cases none
      · intro inside
        exact absurd rfl (inside [] cs rfl)
    · next other =>
      rw [ih]
      constructor
      · intro inside front rest text
        cases front with
        | nil =>
          obtain ⟨rfl, rfl⟩ := List.cons.inj text
          intro zero
          exact other ⟨rfl, (Int.add_zero depth).symm.trans zero⟩
        | cons d front =>
          obtain ⟨rfl, behind⟩ := List.cons.inj text
          rw [← further front]
          exact inside front rest behind
      · intro inside front rest text
        rw [further front]
        exact inside (c :: front) rest (congrArg (c :: ·) text)

/-- An argument: as many brackets are opened as closed, and each comma is inside of one. -/
structure IsArgument (cs : List Char) : Prop where
  even : cs.countP isOpening = cs.countP isClosing
  commas : ∀ front rest, cs = front ++ ',' :: rest →
    front.countP isOpening ≠ front.countP isClosing

theorem isArgument_iff (cs : List Char) :
    IsArgument cs ↔ nesting cs = 0 ∧ behindCommas 0 cs = [] := by
  rw [behindCommas_eq_nil_iff]
  have level (front : List Char) :
      nesting front = 0 ↔ front.countP isOpening = front.countP isClosing := by
    rw [nesting_eq]
    omega
  simp only [Int.zero_add, ne_eq, level]
  constructor
  · intro h
    exact ⟨h.even, h.commas⟩
  · intro h
    exact ⟨h.1, h.2⟩

instance : DecidablePred IsArgument := fun cs => decidable_of_iff _ (isArgument_iff cs).symm

/-! ### Cutting -/

/-- The text between the commas that are outside of every bracket, from a depth on. -/
def argumentPieces (depth : Int) : List Char → List (List Char)
  | [] => [[]]
  | c :: cs =>
    if c = ',' ∧ depth = 0 then [] :: argumentPieces depth cs
    else consToFirst c (argumentPieces (depth + depthChange c) cs)

/-- The pieces that count as arguments, trimmed: all but a blank one at the end. -/
def filledPieces : List (List Char) → List (List Char)
  | [] => []
  | [last] => if (Text.trim last).isEmpty then [] else [Text.trim last]
  | piece :: pieces => Text.trim piece :: filledPieces pieces

def prepend (cs : List Char) : List (List Char) → List (List Char)
  | [] => [cs]
  | piece :: pieces => (cs ++ piece) :: pieces

theorem argumentPieces_ne_nil (depth : Int) (cs : List Char) : argumentPieces depth cs ≠ [] := by
  cases cs with
  | nil => exact List.cons_ne_nil _ _
  | cons c cs =>
    rw [argumentPieces]
    split
    · exact List.cons_ne_nil _ _
    · cases argumentPieces (depth + depthChange c) cs <;> exact List.cons_ne_nil _ _

theorem prepend_nil {pieces : List (List Char)} (ne : pieces ≠ []) : prepend [] pieces = pieces := by
  cases pieces with
  | nil => exact absurd rfl ne
  | cons piece pieces => rfl

theorem prepend_consToFirst (current : List Char) (c : Char) (pieces : List (List Char)) :
    prepend current (consToFirst c pieces) = prepend (current ++ [c]) pieces := by
  cases pieces with
  | nil => rfl
  | cons piece pieces =>
    show (current ++ c :: piece) :: pieces = (current ++ [c] ++ piece) :: pieces
    rw [List.append_assoc, List.singleton_append]

theorem filledPieces_cons {pieces : List (List Char)} (ne : pieces ≠ []) (piece : List Char) :
    filledPieces (piece :: pieces) = Text.trim piece :: filledPieces pieces := by
  cases pieces with
  | nil => exact absurd rfl ne
  | cons next pieces => rfl

theorem cutArguments_eq (depth : Int) (current cs : List Char) :
    cutArguments depth current cs = filledPieces (prepend current (argumentPieces depth cs)) := by
  -- The part that was read so far belongs to the first piece.
  induction cs generalizing depth current with
  | nil =>
    rw [argumentPieces, prepend, List.append_nil]
    rfl
  | cons c cs ih =>
    rw [argumentPieces]
    by_cases cut : c = ',' ∧ depth = 0
    · obtain ⟨rfl, rfl⟩ := cut
      have ne := argumentPieces_ne_nil 0 cs
      rw [cutArguments_comma, ih, prepend_nil ne, if_pos ⟨rfl, rfl⟩, prepend, List.append_nil,
        filledPieces_cons ne]
    · rw [cutArguments_other cut, ih, if_neg cut, prepend_consToFirst]

theorem filledPieces_append_singleton (front : List (List Char)) (last : List Char) :
    filledPieces (front ++ [last]) =
      front.map Text.trim ++ if (Text.trim last).isEmpty then [] else [Text.trim last] := by
  induction front with
  | nil => rfl
  | cons piece front ih =>
    rw [List.cons_append, filledPieces_cons (by simp), ih]
    rfl

/-! ### Joining -/

def joined (arguments : List (List Char)) : List Char := [','].intercalate arguments

theorem joined_cons {arguments : List (List Char)} (ne : arguments ≠ []) (argument : List Char) :
    joined (argument :: arguments) = argument ++ ',' :: joined arguments := by
  rw [joined, List.intercalate_cons_of_ne_nil ne, List.append_assoc]
  rfl

theorem joined_append_comma {arguments : List (List Char)} (ne : arguments ≠ []) :
    joined arguments ++ [','] = joined (arguments ++ [[]]) := by
  induction arguments with
  | nil => exact absurd rfl ne
  | cons argument arguments ih =>
    cases arguments with
    | nil =>
      have two : joined [argument, []] = argument ++ ',' :: joined [[]] :=
        joined_cons (List.cons_ne_nil _ _) argument
      rw [List.singleton_append, two, joined, List.intercalate_singleton]
      rfl
    | cons next arguments =>
      have ne := List.cons_ne_nil next arguments
      have ne' : next :: arguments ++ [[]] ≠ [] := List.cons_ne_nil _ _
      rw [List.cons_append, joined_cons ne, joined_cons ne', List.append_assoc, List.cons_append,
        ih ne]

/-- Joining undoes cutting. -/
theorem joined_argumentPieces (depth : Int) (cs : List Char) :
    joined (argumentPieces depth cs) = cs := by
  induction cs generalizing depth with
  | nil => rfl
  | cons c cs ih =>
    rw [argumentPieces]
    split
    · next cut =>
      rw [joined_cons (argumentPieces_ne_nil depth cs), ih, cut.1]
      rfl
    · have rest := ih (depth + depthChange c)
      cases pieces : argumentPieces (depth + depthChange c) cs with
      | nil => exact absurd pieces (argumentPieces_ne_nil _ _)
      | cons piece pieces' =>
        rw [pieces] at rest
        show joined ((c :: piece) :: pieces') = c :: cs
        cases pieces' with
        | nil =>
          rw [joined, List.intercalate_singleton] at rest ⊢
          rw [rest]
        | cons next pieces' =>
          rw [joined_cons (by simp)] at rest ⊢
          rw [List.cons_append, rest]

theorem argumentPieces_append {depth : Int} {cs : List Char} (inside : behindCommas depth cs = [])
    (rest : List Char) :
    argumentPieces depth (cs ++ rest) = prepend cs (argumentPieces (depth + nesting cs) rest) := by
  induction cs generalizing depth with
  | nil =>
    have same : depth + nesting [] = depth := Int.add_zero depth
    rw [List.nil_append, same]
    exact (prepend_nil (argumentPieces_ne_nil depth rest)).symm
  | cons c cs ih =>
    rw [behindCommas] at inside
    split at inside
    · cases inside
    · next other =>
      have deeper : depth + depthChange c + nesting cs = depth + nesting (c :: cs) := by
        rw [nesting]
        omega
      rw [List.cons_append, argumentPieces, if_neg other, ih inside, deeper]
      cases argumentPieces (depth + nesting (c :: cs)) rest <;> rfl

/-- Cutting undoes joining. -/
theorem argumentPieces_joined {arguments : List (List Char)} (ne : arguments ≠ [])
    (each : ∀ a ∈ arguments, IsArgument a) : argumentPieces 0 (joined arguments) = arguments := by
  induction arguments with
  | nil => exact absurd rfl ne
  | cons argument arguments ih =>
    obtain ⟨even, inside⟩ := (isArgument_iff argument).mp (each argument (List.mem_cons_self ..))
    have apart (rest : List Char) :
        argumentPieces 0 (argument ++ rest) = prepend argument (argumentPieces 0 rest) := by
      rw [argumentPieces_append inside, even, Int.add_zero]
    cases arguments with
    | nil =>
      have alone := apart []
      rw [List.append_nil] at alone
      rw [joined, List.intercalate_singleton, alone]
      show [argument ++ []] = [argument]
      rw [List.append_nil]
    | cons next arguments =>
      have rest := ih (by simp) fun a ha => each a (List.mem_cons_of_mem argument ha)
      have cut : argumentPieces 0 (',' :: joined (next :: arguments)) = [] :: next :: arguments := by
        rw [argumentPieces, if_pos ⟨rfl, rfl⟩, rest]
      rw [joined_cons (by simp), apart, cut]
      show (argument ++ []) :: next :: arguments = argument :: next :: arguments
      rw [List.append_nil]

/-! ### Attributes with arguments -/

/-- An attribute with a list of arguments, with or without a comma behind the last one. -/
def listed (path : String) (arguments : List String) (comma : Bool) : String :=
  path ++ "(" ++ ",".intercalate arguments ++ (if comma then "," else "") ++ ")"

theorem toList_listed (path : String) (arguments : List String) (comma : Bool) :
    (listed path arguments comma).toList =
      path.toList ++ '(' ::
        ((joined (arguments.map String.toList) ++ if comma then [','] else []) ++ [')']) := by
  cases comma <;> simp [listed, joined]

/-- The empty arguments that an empty list and a final comma stand for. -/
def emptyArguments (arguments : List String) (comma : Bool) : List String :=
  (if arguments = [] then [""] else []) ++ if comma then [""] else []

theorem eq_empty_of_mem {arguments : List String} {comma : Bool} {a : String}
    (h : a ∈ emptyArguments arguments comma) : a = "" := by
  rcases List.mem_append.mp h with h | h
  · split at h
    · exact List.mem_singleton.mp h
    · cases h
  · split at h
    · exact List.mem_singleton.mp h
    · cases h

theorem append_emptyArguments_ne_nil (arguments : List String) (comma : Bool) :
    arguments ++ emptyArguments arguments comma ≠ [] := by
  cases arguments with
  | nil => exact List.cons_ne_nil _ _
  | cons a arguments => exact List.cons_ne_nil _ _

theorem listed_eq (path : String) (arguments : List String) (comma : Bool) :
    listed path arguments comma =
      listed path (arguments ++ emptyArguments arguments comma) false := by
  apply String.toList_inj.mp
  have plain := toList_listed path (arguments ++ emptyArguments arguments comma) false
  rw [if_neg (by decide), List.append_nil] at plain
  rw [toList_listed, plain]
  cases arguments with
  | nil => cases comma <;> rfl
  | cons a arguments =>
    have filled : (a :: arguments).map String.toList ≠ [] := List.cons_ne_nil _ _
    have more : emptyArguments (a :: arguments) comma = if comma then [""] else [] := rfl
    rw [more]
    cases comma with
    | false => simp only [Bool.false_eq_true, if_false, List.append_nil]
    | true =>
      rw [if_pos rfl, if_pos rfl, joined_append_comma filled, List.map_append]
      rfl

theorem attributeArguments_parenthesized {text : String} {path body : List Char}
    (written : text.toList = path ++ '(' :: (body ++ [')'])) (plain : '(' ∉ path) :
    attributeArguments text = (filledPieces (argumentPieces 0 body)).map String.ofList := by
  have cut : cutArguments 0 [] body = filledPieces (argumentPieces 0 body) := by
    rw [cutArguments_eq]
    cases argumentPieces 0 body <;> rfl
  rw [attributeArguments, written, argumentText?_parenthesized plain]
  show (cutArguments 0 [] body).map String.ofList = _
  rw [cut]

theorem map_ofList_filledPieces (front : List String) (last : String) :
    (filledPieces ((front ++ [last]).map String.toList)).map String.ofList =
      front.map trimmed ++ if trimmed last = "" then [] else [trimmed last] := by
  have blank : (Text.trim last.toList).isEmpty = true ↔ trimmed last = "" := by
    rw [List.isEmpty_iff, trimmed, ← String.toList_inj, String.toList_ofList]
    rfl
  rw [List.map_append, List.map_singleton, filledPieces_append_singleton, List.map_append,
    List.map_map, List.map_map]
  simp only [blank]
  split <;> rfl

theorem attributeArguments_listed {path : String} {front : List String} {last : String}
    (plain : '(' ∉ path.toList) (each : ∀ a ∈ front ++ [last], IsArgument a.toList) :
    attributeArguments (listed path (front ++ [last]) false) =
      front.map trimmed ++ if trimmed last = "" then [] else [trimmed last] := by
  have written := toList_listed path (front ++ [last]) false
  rw [if_neg (by decide), List.append_nil] at written
  have separate : ∀ cs ∈ (front ++ [last]).map String.toList, IsArgument cs := by
    intro cs hcs
    obtain ⟨a, ha, rfl⟩ := List.mem_map.mp hcs
    exact each a ha
  rw [attributeArguments_parenthesized written plain,
    argumentPieces_joined (by simp) separate, map_ofList_filledPieces]

theorem isArgument_append_empty {arguments : List String}
    (each : ∀ a ∈ arguments, IsArgument a.toList) (comma : Bool) :
    ∀ a ∈ arguments ++ emptyArguments arguments comma, IsArgument a.toList := by
  intro a ha
  rcases List.mem_append.mp ha with ha | ha
  · exact each a ha
  · rw [eq_empty_of_mem ha]
    decide

/-- Arguments that are joined come back, if the last one is not blank. -/
theorem attributeArguments_listed_filled {path : String} {arguments : List String} {comma : Bool}
    (plain : '(' ∉ path.toList) (each : ∀ a ∈ arguments, IsArgument a.toList)
    (filled : ∀ last ∈ arguments.getLast?, trimmed last ≠ "")
    (some : comma = true → arguments ≠ []) :
    attributeArguments (listed path arguments comma) = arguments.map trimmed := by
  have blank : trimmed "" = "" := by decide
  have each' := isArgument_append_empty each comma
  rw [listed_eq]
  cases comma with
  | true =>
    have more : emptyArguments arguments true = [""] := by simp [emptyArguments, some rfl]
    rw [more] at each' ⊢
    rw [attributeArguments_listed plain each', if_pos blank, List.append_nil]
  | false =>
    rcases List.eq_nil_or_concat' arguments with rfl | ⟨front, last, rfl⟩
    · have one : emptyArguments [] false = [""] := rfl
      rw [one] at each' ⊢
      rw [attributeArguments_listed plain each', if_pos blank]
      rfl
    · have none : emptyArguments (front ++ [last]) false = [] := by simp [emptyArguments]
      have present : trimmed last ≠ "" := filled last (by simp)
      rw [none, List.append_nil, attributeArguments_listed plain each, if_neg present,
        List.map_append, List.map_singleton]

/-- Every attribute with a list is one with joined arguments. -/
theorem exists_listed {text : String} (opens : '(' ∈ text.toList)
    (closes : text.toList.getLast? = some ')') :
    ∃ path front last, '(' ∉ path.toList ∧ text = listed path (front ++ [last]) false ∧
      attributeArguments text =
        front.map trimmed ++ if trimmed last = "" then [] else [trimmed last] := by
  obtain ⟨path, body, written, plain⟩ := exists_parenthesized opens closes
  -- The arguments are the pieces of the body, brackets that do not match included.
  have ne := argumentPieces_ne_nil 0 body
  have pieces := List.dropLast_append_getLast ne
  generalize (argumentPieces 0 body).dropLast = front at pieces
  generalize (argumentPieces 0 body).getLast ne = last at pieces
  have back : (front.map String.ofList ++ [String.ofList last]).map String.toList =
      argumentPieces 0 body := by
    rw [← pieces]
    simp
  refine ⟨String.ofList path, front.map String.ofList, String.ofList last, ?_, ?_, ?_⟩
  · rw [String.toList_ofList]
    exact plain
  · apply String.toList_inj.mp
    rw [toList_listed, back, joined_argumentPieces, written, String.toList_ofList,
      if_neg (by decide), List.append_nil]
  · rw [attributeArguments_parenthesized written plain, ← back, map_ofList_filledPieces]

end AnchorHarness.Rust
