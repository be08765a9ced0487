import AnchorHarness.Rust.Attribute
import AnchorHarness.Proofs.Rust.WrittenTypes

/-!
# Arguments in the text of an attribute

The cut of an argument list looks at characters only. What it finds is told here without its state:
an argument begins at the front, or behind a comma that is outside of every bracket, and its key is
the name there, if nothing but blanks stands around it.
-/

namespace AnchorHarness.Rust

open Text (isBlank)

/-! ### The argument list -/

theorem argumentText?_parenthesized {path body : List Char} (plain : '(' ∉ path) :
    argumentText? (path ++ '(' :: (body ++ [')'])) = some body := by
  have front : ∀ c ∈ path, (c != '(') = true := by
    intro c hc
    rw [bne_iff_ne]
    rintro rfl
    exact plain hc
  have behind : (path ++ '(' :: (body ++ [')'])).dropWhile (· != '(') = '(' :: (body ++ [')']) := by
    rw [List.dropWhile_append_of_pos front, List.dropWhile_cons_of_neg (by decide)]
  have last : (path ++ '(' :: (body ++ [')'])).getLast? = some ')' := by
    rw [← List.cons_append, ← List.append_assoc, List.getLast?_concat]
  rw [argumentText?, behind, last]
  show some (body ++ [')']).dropLast = some body
  rw [List.dropLast_concat]

theorem exists_parenthesized {cs : List Char} (opens : '(' ∈ cs) (closes : cs.getLast? = some ')') :
    ∃ path body, cs = path ++ '(' :: (body ++ [')']) ∧ '(' ∉ path := by
  obtain ⟨path, behind, rfl, plain⟩ := List.eq_append_cons_of_mem opens
  rw [List.getLast?_append_cons, List.getLast?_cons] at closes
  cases last : behind.getLast? with
  | none =>
    rw [last] at closes
    cases closes
  | some c =>
    rw [last] at closes
    obtain ⟨body, rfl⟩ := List.getLast?_eq_some_iff.mp (last.trans closes)
    exact ⟨path, body, rfl, plain⟩

/-! ### Commas outside of brackets -/

/-- What the brackets of a text add to the depth. -/
def nesting : List Char → Int
  | [] => 0
  | c :: cs => depthChange c + nesting cs

/-- What stands behind each comma that is outside of every bracket, from a depth on. -/
def behindCommas (depth : Int) : List Char → List (List Char)
  | [] => []
  | c :: cs =>
    if c = ',' ∧ depth = 0 then cs :: behindCommas depth cs
    else behindCommas (depth + depthChange c) cs

/-- What stands in front of the first such comma. -/
def firstArgument (depth : Int) : List Char → List Char
  | [] => []
  | c :: cs => if c = ',' ∧ depth = 0 then [] else c :: firstArgument (depth + depthChange c) cs

theorem cutArguments_comma (current cs : List Char) :
    cutArguments 0 current (',' :: cs) = Text.trim current :: cutArguments 0 [] cs := rfl

theorem cutArguments_other {c : Char} {depth : Int} (h : ¬(c = ',' ∧ depth = 0))
    (current cs : List Char) :
    cutArguments depth current (c :: cs) =
      cutArguments (depth + depthChange c) (current ++ [c]) cs := by
  have other : ¬(c = ',' ∧ depth + depthChange c = 0) := by
    rintro ⟨rfl, zero⟩
    exact h ⟨rfl, (Int.add_zero depth).symm.trans zero⟩
  exact if_neg other

/-- The arguments are what stands in front of the first comma and between the commas. -/
theorem mem_cutArguments_iff {argument : List Char} (some : argument ≠ []) (depth : Int)
    (current cs : List Char) :
    argument ∈ cutArguments depth current cs ↔
      argument = Text.trim (current ++ firstArgument depth cs) ∨
        ∃ r ∈ behindCommas depth cs, argument = Text.trim (firstArgument 0 r) := by
  -- What was read so far is kept general, since every cut begins a new argument.
  induction cs generalizing depth current with
  | nil =>
    rw [cutArguments, firstArgument, behindCommas, List.append_nil]
    split
    · next none =>
      have other : argument ≠ Text.trim current := by
        rintro rfl
        exact some (List.isEmpty_iff.mp none)
      simp [other]
    · simp
  | cons c cs ih =>
    rw [firstArgument, behindCommas]
    by_cases cut : c = ',' ∧ depth = 0
    · obtain ⟨rfl, rfl⟩ := cut
      rw [cutArguments_comma, List.mem_cons, ih, List.nil_append, if_pos ⟨rfl, rfl⟩,
        if_pos ⟨rfl, rfl⟩, List.append_nil, List.exists_mem_cons_iff]
    · rw [cutArguments_other cut, ih, if_neg cut, if_neg cut, List.append_assoc,
        List.singleton_append]

theorem behindCommas_append (depth : Int) (xs ys : List Char) :
    behindCommas depth (xs ++ ys) =
      (behindCommas depth xs).map (· ++ ys) ++ behindCommas (depth + nesting xs) ys := by
  induction xs generalizing depth with
  | nil =>
    have same : depth + nesting [] = depth := Int.add_zero depth
    rw [same]
    rfl
  | cons c xs ih =>
    have all : depth + depthChange c + nesting xs = depth + nesting (c :: xs) :=
      Int.add_assoc depth (depthChange c) (nesting xs)
    rw [List.cons_append, behindCommas, behindCommas]
    split
    · next cut =>
      have stays : depth + nesting xs = depth + nesting (c :: xs) := by
        rw [← all, cut.1]
        exact congrArg (· + nesting xs) (Int.add_zero depth).symm
      rw [ih, stays]
      rfl
    · rw [ih, all]

theorem exists_firstArgument_append (depth : Int) (cs : List Char) :
    ∃ rest, cs = firstArgument depth cs ++ rest ∧ ∀ c ∈ rest.head?, c = ',' := by
  induction cs generalizing depth with
  | nil => exact ⟨[], rfl, by simp⟩
  | cons c cs ih =>
    rw [firstArgument]
    split
    · next cut => exact ⟨c :: cs, rfl, by simp [cut.1]⟩
    · obtain ⟨rest, he, comma⟩ := ih (depth + depthChange c)
      exact ⟨rest, congrArg (c :: ·) he, comma⟩

/-! ### Texts without signs -/

/-- A text without commas and brackets. -/
def Flat (cs : List Char) : Prop := ∀ c ∈ cs, c ≠ ',' ∧ depthChange c = 0

theorem Flat.append {xs ys : List Char} (hx : Flat xs) (hy : Flat ys) : Flat (xs ++ ys) :=
  fun c hc => (List.mem_append.mp hc).elim (hx c) (hy c)

theorem flat_of_test {test : Char → Bool} (signs : [',', '(', '[', '\x7b', ')', ']', '\x7d'].all
    (fun c => !test c) = true) {cs : List Char} (h : ∀ c ∈ cs, test c = true) : Flat cs := by
  intro c hc
  have other : c ∉ [',', '(', '[', '\x7b', ')', ']', '\x7d'] := by
    intro hm
    have fails := List.all_eq_true.mp signs c hm
    rw [h c hc] at fails
    cases fails
  simp only [List.mem_cons, List.not_mem_nil, or_false, not_or] at other
  simp [depthChange, other]

theorem flat_of_allBlank {g : List Char} (h : AllBlank g) : Flat g := flat_of_test (by decide) h

theorem flat_of_isName {name : List Char} (h : IsName name) : Flat name :=
  flat_of_test (by decide) h.letters

section

variable {xs : List Char} (flat : Flat xs)
include flat

theorem Flat.behindCommas_eq (depth : Int) : behindCommas depth xs = [] := by
  induction xs generalizing depth with
  | nil => rfl
  | cons c xs ih =>
    rw [behindCommas, if_neg fun cut => (flat c (List.mem_cons_self ..)).1 cut.1]
    exact ih (fun d hd => flat d (List.mem_cons_of_mem c hd)) _

theorem Flat.nesting_eq : nesting xs = 0 := by
  induction xs with
  | nil => rfl
  | cons c xs ih =>
    have rest := ih fun d hd => flat d (List.mem_cons_of_mem c hd)
    rw [nesting, (flat c (List.mem_cons_self ..)).2, rest, Int.add_zero]

theorem Flat.firstArgument_append (depth : Int) (ys : List Char) :
    firstArgument depth (xs ++ ys) = xs ++ firstArgument depth ys := by
  induction xs generalizing depth with
  | nil => rfl
  | cons c xs ih =>
    obtain ⟨comma, zero⟩ := flat c (List.mem_cons_self ..)
    rw [List.cons_append, firstArgument, if_neg fun cut => comma cut.1, zero, Int.add_zero,
      ih fun d hd => flat d (List.mem_cons_of_mem c hd)]
    rfl

end

/-! ### Keys -/

/-- What stands in front of the first equals sign of an argument. -/
def keyOf (argument : List Char) : List Char := Text.trim (argument.takeWhile (· != '='))

/-- The text begins with the name, and behind it there is one of the signs or nothing. -/
def Opens (name signs cs : List Char) : Prop :=
  ∃ g b q, cs = g ++ (name ++ (b ++ q)) ∧ AllBlank g ∧ AllBlank b ∧ ∀ c ∈ q.head?, c ∈ signs

theorem trimEnd_append_cons {c : Char} (h : isBlank c = false) (xs ys : List Char) :
    Text.trimEnd (xs ++ c :: ys) = xs ++ c :: Text.trimEnd ys := by
  induction xs with
  | nil => rw [List.nil_append, Text.trimEnd_cons, h, Bool.and_false, if_neg (by decide)]; rfl
  | cons d xs ih =>
    have kept : (xs ++ c :: Text.trimEnd ys).isEmpty = false := by cases xs <;> rfl
    rw [List.cons_append, Text.trimEnd_cons, ih, kept, Bool.false_and, if_neg (by decide)]
    rfl

section

variable {name : List Char} (isName : IsName name)
include isName

theorem trimStart_name {g : List Char} (hg : AllBlank g) (rest : List Char) :
    Text.trimStart (g ++ (name ++ rest)) = name ++ rest := by
  obtain ⟨c, front, rfl, -⟩ := isName.starts
  have first : isBlank c = false :=
    (isInert_of_isNameCharacter (isName.letters c (List.mem_cons_self ..))).1
  rw [Text.trimStart, List.dropWhile_append_of_pos hg, List.cons_append,
    List.dropWhile_cons_of_neg (by simp [first])]

theorem trim_name {g b : List Char} (hg : AllBlank g) (hb : AllBlank b) :
    Text.trim (g ++ (name ++ b)) = name := by
  have inert : ∀ c ∈ name, IsInert c := fun c hc => isInert_of_isNameCharacter (isName.letters c hc)
  have front {g : List Char} (hg : AllBlank g) : Text.trimStart (g ++ name) = name := by
    have all := trimStart_name isName hg []
    rwa [List.append_nil] at all
  have alone : Text.trimStart name = name := front (g := []) (by simp [AllBlank])
  calc Text.trim (g ++ (name ++ b)) = Text.trim (g ++ name) := by
        rw [← List.append_assoc, trim_append_blank _ hb]
    _ = Text.trimEnd name := by rw [Text.trim, front hg]
    _ = Text.trim name := by rw [Text.trim, alone]
    _ = name := trim_of_inert inert

omit isName in
theorem opens_of_keyOf_trim {cs : List Char} (key : keyOf (Text.trim cs) = name) :
    Opens name ['='] cs := by
  obtain ⟨before, behind, text, hbefore, hbehind⟩ := exists_trim cs
  obtain ⟨g, b, front, hg, hb⟩ := exists_trim ((Text.trim cs).takeWhile (· != '='))
  have cut := (List.takeWhile_append_dropWhile (p := (· != '=')) (l := Text.trim cs)).symm
  have sign : ∀ c ∈ ((Text.trim cs).dropWhile (· != '=')).head?, c = '=' := by
    intro c hc
    have stops := List.head?_dropWhile_not (· != '=') (Text.trim cs)
    rw [Option.mem_def.mp hc] at stops
    simpa using stops
  rw [keyOf] at key
  rw [key] at front
  generalize (Text.trim cs).dropWhile (· != '=') = rest at cut sign
  have all : cs = (before ++ g) ++ (name ++ (b ++ (rest ++ behind))) := by
    rw [text, cut, front]
    simp only [List.append_assoc]
  have blank {xs ys : List Char} (hx : AllBlank xs) (hy : AllBlank ys) : AllBlank (xs ++ ys) :=
    fun c hc => (List.mem_append.mp hc).elim (hx c) (hy c)
  cases rest with
  | nil =>
    refine ⟨before ++ g, b ++ behind, [], ?_, blank hbefore hg, blank hb hbehind, by simp⟩
    rw [all, List.nil_append, List.append_nil]
  | cons d rest =>
    refine ⟨before ++ g, b, d :: rest ++ behind, all, blank hbefore hg, hb, ?_⟩
    intro c hc
    rw [sign c hc]
    exact List.mem_singleton_self '='

theorem keyOf_trim_of_opens {cs : List Char} (opens : Opens name ['='] cs) :
    keyOf (Text.trim cs) = name := by
  obtain ⟨g, b, q, rfl, hg, hb, sign⟩ := opens
  have none : AllBlank [] := by simp [AllBlank]
  have plain {xs : List Char} (h : ∀ c ∈ xs, isNameCharacter c = true ∨ isBlank c = true) :
      ∀ c ∈ xs, (c != '=') = true := by
    intro c hc
    rw [bne_iff_ne]
    rintro rfl
    exact absurd (h '=' hc) (by decide)
  cases q with
  | nil =>
    have letters := plain fun c hc => .inl (isName.letters c hc)
    have alone : Text.trim ([] ++ (name ++ [])) = name := trim_name isName none none
    rw [List.nil_append, List.append_nil] at alone
    rw [List.append_nil, trim_name isName hg hb, keyOf, List.takeWhile_eq_self_iff.mpr letters,
      alone]
  | cons d q =>
    have inside : ∀ c ∈ name ++ b, (c != '=') = true := plain fun c hc =>
      (List.mem_append.mp hc).imp (isName.letters c) (hb c)
    have core : Text.trim ([] ++ (name ++ b)) = name := trim_name isName none hb
    obtain rfl : d = '=' := List.mem_singleton.mp (sign d rfl)
    rw [Text.trim, trimStart_name isName hg, ← List.append_assoc, trimEnd_append_cons (by decide),
      keyOf, List.takeWhile_append_of_pos inside, List.takeWhile_cons_of_neg (by decide),
      List.append_nil]
    exact core

theorem keyOf_trim_eq_iff (cs : List Char) : keyOf (Text.trim cs) = name ↔ Opens name ['='] cs :=
  ⟨opens_of_keyOf_trim, keyOf_trim_of_opens isName⟩

theorem opens_firstArgument_iff (cs : List Char) :
    Opens name ['='] (firstArgument 0 cs) ↔ Opens name ['=', ','] cs := by
  constructor
  · rintro ⟨g, b, q, first, hg, hb, sign⟩
    obtain ⟨rest, text, comma⟩ := exists_firstArgument_append 0 cs
    rw [first] at text
    refine ⟨g, b, q ++ rest, by simp only [text, List.append_assoc], hg, hb, ?_⟩
    intro c hc
    cases q with
    | nil => simp [comma c hc]
    | cons d q =>
      have same : c = '=' := List.mem_singleton.mp (sign c hc)
      simp [same]
  · rintro ⟨g, b, q, rfl, hg, hb, sign⟩
    refine ⟨g, b, firstArgument 0 q, ?_, hg, hb, ?_⟩
    · rw [(flat_of_allBlank hg).firstArgument_append, (flat_of_isName isName).firstArgument_append,
        (flat_of_allBlank hb).firstArgument_append]
    · intro c hc
      cases q with
      | nil => cases hc
      | cons d q =>
        rw [firstArgument] at hc
        split at hc
        · cases hc
        · next other =>
          obtain rfl : d = c := Option.some.inj hc
          have either := sign d rfl
          simp only [List.mem_cons, List.not_mem_nil, or_false] at either ⊢
          exact either.resolve_right fun comma => other ⟨comma, rfl⟩

/-- A name is the key of an argument just if it stands alone or with an equals sign at the front of
the list, or behind a comma outside of every bracket. -/
theorem exists_keyOf_iff (body : List Char) :
    (∃ argument ∈ cutArguments 0 [] body, keyOf argument = name) ↔
      ∃ r ∈ body :: behindCommas 0 body, Opens name ['=', ','] r := by
  have some (cs : List Char) (key : keyOf (Text.trim cs) = name) : Text.trim cs ≠ [] := by
    intro none
    rw [none] at key
    obtain ⟨c, front, rfl, -⟩ := isName.starts
    cases key
  have read (cs : List Char) :
      keyOf (Text.trim (firstArgument 0 cs)) = name ↔ Opens name ['=', ','] cs := by
    rw [keyOf_trim_eq_iff isName, opens_firstArgument_iff isName]
  constructor
  · rintro ⟨argument, hm, key⟩
    have present : argument ≠ [] := by
      rintro rfl
      obtain ⟨c, front, rfl, -⟩ := isName.starts
      cases key
    obtain rfl | ⟨r, hr, rfl⟩ := (mem_cutArguments_iff present 0 [] body).mp hm
    · exact ⟨body, List.mem_cons_self .., (read body).mp key⟩
    · exact ⟨r, List.mem_cons_of_mem body hr, (read r).mp key⟩
  · rintro ⟨r, hr, opens⟩
    have key := (read r).mpr opens
    refine ⟨Text.trim (firstArgument 0 r), ?_, key⟩
    rw [mem_cutArguments_iff (some _ key)]
    rcases List.mem_cons.mp hr with rfl | hr
    · exact .inl rfl
    · exact .inr ⟨r, hr, rfl⟩

end

end AnchorHarness.Rust
