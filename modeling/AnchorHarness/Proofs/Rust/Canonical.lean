import AnchorHarness.Proofs.Rust.Spacing
import AnchorHarness.Rust.TypeRef
import Mathlib.Data.List.TakeWhile

/-!
# Canonical texts

What the canonical spelling keeps of a text: the characters that are no blanks, the pieces between
double colons, and with them the segments of a path. It is its own canonical spelling, if no colon
is parted from a pair of colons by blanks alone.
-/

namespace AnchorHarness.Rust

open Text (isBlank)

/-! ### What comes to stand in front -/

theorem respace_joined_append {b : List Char} (h : ∀ c ∈ b, isBlank c = true) (x : List Char) :
    respace .joined (b ++ x) = respace (if b = [] then .joined else .apart) x := by
  cases b with
  | nil => rfl
  | cons c b =>
    rw [List.cons_append, respace_blank (h c (List.mem_cons_self ..))]
    exact respace_blank_append rfl (fun d hd => h d (List.mem_cons_of_mem c hd)) x

theorem head?_respace_tight {c : Char} (h : isBlank c = false) (cs : List Char) :
    (respace .tight (c :: cs)).head? = some c := by
  by_cases pair : c = ':' ∧ cs.head? = some ':'
  · obtain ⟨rfl, hd⟩ := pair
    obtain ⟨cs, rfl⟩ := List.head?_eq_some_iff.mp hd
    rfl
  · rw [respace_cons fun he hd => pair ⟨he, hd⟩, h]
    by_cases comma : c = ','
    · subst comma
      rfl
    · simp only [comma, Bool.false_eq_true, if_false]
      cases isTightSign c <;> rfl

theorem lead_eq_nil {s : Spacing} (h : s.owed = []) (cs : List Char) : s.lead cs = [] := by
  unfold Spacing.lead
  split
  · rfl
  · rfl
  · rw [h, ite_self]

/-- Blanks go only in front of signs that take none. -/
theorem exists_of_head?_respace {r : List Char} {d : Char} (h : (respace .joined r).head? = some d)
    (space : d ≠ ' ') :
    ∃ b x, r = b ++ d :: x ∧ (∀ c ∈ b, isBlank c = true) ∧
      (b = [] ∨ isTightSign d = true ∨ (d = ':' ∧ x.head? = some ':')) := by
  have blanks : ∀ c ∈ r.takeWhile isBlank, isBlank c = true :=
    List.all_eq_true.mp List.all_takeWhile
  have split : r = r.takeWhile isBlank ++ r.dropWhile isBlank :=
    List.takeWhile_append_dropWhile.symm
  rw [split, respace_joined_append blanks] at h
  cases hx : r.dropWhile isBlank with
  | nil =>
    rw [hx] at h
    cases h
  | cons c x =>
    have other : isBlank c = false := by
      have stop := List.head?_dropWhile_not isBlank r
      rw [hx] at stop
      exact stop
    have front : (respace .tight (c :: x)).head? = some c := head?_respace_tight other x
    rw [hx, respace_eq_lead other] at h
    rw [hx] at split
    generalize r.takeWhile isBlank = b at blanks split h
    by_cases pair : c = ':' ∧ x.head? = some ':'
    · obtain ⟨rfl, hd⟩ := pair
      obtain ⟨x, rfl⟩ := List.head?_eq_some_iff.mp hd
      obtain rfl : ':' = d := Option.some.inj h
      exact ⟨b, _, split, blanks, .inr (.inr ⟨rfl, rfl⟩)⟩
    · rw [lead_cons fun he hd => pair ⟨he, hd⟩] at h
      cases sign : isTightSign c with
      | true =>
        rw [sign, if_pos rfl, List.nil_append, front] at h
        obtain rfl := Option.some.inj h
        exact ⟨b, x, split, blanks, .inr (.inl sign)⟩
      | false =>
        rw [sign, if_neg (by decide)] at h
        by_cases none : b = []
        · subst none
          rw [if_pos rfl] at h
          obtain rfl : c = d := Option.some.inj (front.symm.trans h)
          exact ⟨[], x, split, blanks, .inl rfl⟩
        · rw [if_neg none] at h
          exact absurd (Option.some.inj h).symm space

/-! ### Colons apart -/

/-- A pair of colons in front, behind blanks. -/
def blankColons : List Char → Bool
  | [] => false
  | c :: cs => isBlank c && (cs.dropWhile isBlank).take 2 == [':', ':']

/-- Only blanks part no colon from a pair of colons. -/
def colonsApart : List Char → Bool
  | [] => true
  | c :: cs => !(c == ':' && blankColons cs) && colonsApart cs

theorem colonsApart_of_append_right {xs ys : List Char} (h : colonsApart (xs ++ ys) = true) :
    colonsApart ys = true := by
  induction xs with
  | nil => exact h
  | cons c xs ih =>
    rw [List.cons_append, colonsApart, Bool.and_eq_true] at h
    exact ih h.2

theorem blankColons_append {xs : List Char} (h : blankColons xs = true) (ys : List Char) :
    blankColons (xs ++ ys) = true := by
  cases xs with
  | nil => cases h
  | cons c xs =>
    rw [List.cons_append, blankColons, Bool.and_eq_true, beq_iff_eq] at *
    have long : 2 ≤ (xs.dropWhile isBlank).length := by
      have length := congrArg List.length h.2
      rw [List.length_take] at length
      change _ = 2 at length
      omega
    have some : (xs.dropWhile isBlank).isEmpty = false := by
      cases hd : xs.dropWhile isBlank with
      | nil => simp [hd] at long
      | cons d ds => rfl
    refine ⟨h.1, ?_⟩
    rw [List.dropWhile_append, some, if_neg (by decide), List.take_append_of_le_length long]
    exact h.2

theorem colonsApart_of_append_left {xs ys : List Char} (h : colonsApart (xs ++ ys) = true) :
    colonsApart xs = true := by
  induction xs with
  | nil => rfl
  | cons c xs ih =>
    rw [List.cons_append, colonsApart, Bool.and_eq_true] at h
    rw [colonsApart, Bool.and_eq_true]
    refine ⟨?_, ih h.2⟩
    by_cases parted : blankColons xs = true
    · have other := h.1
      rw [blankColons_append parted ys] at other
      rwa [parted]
    · simp [parted]

theorem head?_of_colonsApart {r : List Char} (h : colonsApart (':' :: r) = true)
    (head : (respace .joined r).head? = some ':') : r.head? = some ':' := by
  obtain ⟨b, x, rfl, blanks, none | sign | ⟨-, pair⟩⟩ := exists_of_head?_respace head (by decide)
  · rw [none]
    rfl
  · cases sign
  · obtain ⟨x, rfl⟩ := List.head?_eq_some_iff.mp pair
    cases b with
    | nil => rfl
    | cons d b =>
      have behind : ∀ e ∈ b, isBlank e = true := fun e he => blanks e (List.mem_cons_of_mem d he)
      rw [colonsApart, List.cons_append, blankColons, blanks d (List.mem_cons_self ..),
        List.dropWhile_append_of_pos behind] at h
      exact absurd h (by simp [List.dropWhile, show isBlank ':' = false by decide])

/-! ### Spelling twice -/

theorem colonsApart_of_cons {c : Char} {cs : List Char} (h : colonsApart (c :: cs) = true) :
    colonsApart cs = true := by
  rw [colonsApart, Bool.and_eq_true] at h
  exact h.2

theorem respace_owed {xs ys : List Char} (h : ∀ s, respace s xs = s.owed ++ ys) (s : Spacing) :
    respace .joined (s.owed ++ xs) = s.owed ++ ys ∧ respace .tight (s.owed ++ xs) = ys := by
  have space : isBlank ' ' = true := by decide
  cases s with
  | tight => exact ⟨h .joined, h .tight⟩
  | joined => exact ⟨h .joined, h .tight⟩
  | apart => exact ⟨(respace_blank space).trans (h .apart), (respace_blank space).trans (h .tight)⟩

/-- Spelling a text again changes nothing, but that a blank in front may be dropped. -/
theorem respace_respace (s : Spacing) (cs : List Char) (h : colonsApart cs = true) :
    respace .joined (respace s cs) = respace s cs ∧
      respace .tight (respace s cs) = respace .tight cs := by
  induction s, cs using spacing_induction with
  | nil s => exact ⟨rfl, rfl⟩
  | colons s cs ih =>
    have twice := (ih (colonsApart_of_cons (colonsApart_of_cons h))).2
    rw [respace_colons, respace_colons, respace_colons, respace_colons, twice]
    exact ⟨rfl, rfl⟩
  | colon s cs hd ih =>
    have single : (respace .joined cs).head? ≠ some ':' := fun head =>
      hd (head?_of_colonsApart h head)
    have twice := (ih (colonsApart_of_cons h)).1
    rw [respace_colon hd, respace_colon hd]
    refine respace_owed (fun s => ?_) s
    rw [respace_colon single, twice]
  | blank s c cs hc ih =>
    rw [respace_blank hc, respace_blank hc]
    exact ih (colonsApart_of_cons h)
  | comma s cs ih =>
    have twice := (ih (colonsApart_of_cons h)).2
    have space : isBlank ' ' = true := by decide
    have again (s : Spacing) : respace s (',' :: ' ' :: respace .tight cs) =
        ',' :: ' ' :: respace .tight cs := by
      rw [respace_comma, respace_blank space]
      exact congrArg (',' :: ' ' :: ·) twice
    rw [respace_comma, respace_comma]
    exact ⟨again .joined, again .tight⟩
  | angle s c cs hc ih =>
    have twice := (ih (colonsApart_of_cons h)).2
    rw [respace_angle hc, respace_angle hc, respace_angle hc, respace_angle hc, twice]
    exact ⟨rfl, rfl⟩
  | inert s c cs hc ih =>
    have twice := (ih (colonsApart_of_cons h)).1
    rw [respace_inert hc, respace_inert hc]
    refine respace_owed (fun s => ?_) s
    rw [respace_inert hc, twice]

theorem canonicalType_canonicalType {cs : List Char} (h : colonsApart cs = true) :
    canonicalType (canonicalType cs) = canonicalType cs :=
  (respace_respace .tight cs h).2

/-! ### Characters kept -/

theorem mem_respace {c : Char} (h : isBlank c = false) (s : Spacing) (cs : List Char) :
    c ∈ respace s cs ↔ c ∈ cs := by
  have space : c ≠ ' ' := by
    rintro rfl
    exact absurd h (by decide)
  have owed (s : Spacing) : c ∉ s.owed := by
    cases s with
    | tight => exact List.not_mem_nil
    | joined => exact List.not_mem_nil
    | apart => exact fun hm => space (List.mem_singleton.mp hm)
  induction s, cs using spacing_induction with
  | nil s => rfl
  | colons s cs ih => simp only [respace_colons, List.mem_cons, ih]
  | colon s cs hd ih =>
    simp only [respace_colon hd, List.mem_append, owed s, List.mem_cons, ih, false_or]
  | blank s d cs hd ih =>
    have other : c ≠ d := by
      rintro rfl
      rw [h] at hd
      cases hd
    rw [respace_blank hd, List.mem_cons, or_iff_right other]
    exact ih
  | comma s cs ih => simp only [respace_comma, List.mem_cons, ih, space, false_or]
  | angle s d cs hd ih => simp only [respace_angle hd, List.mem_cons, ih]
  | inert s d cs hd ih =>
    simp only [respace_inert hd, List.mem_append, owed s, List.mem_cons, ih, false_or]

/-! ### Pieces between double colons -/

/-- The pieces of a text, spelled; the state in front of the text is that of the first one. -/
def respacePieces (s : Spacing) : List (List Char) → List (List Char)
  | [] => []
  | piece :: pieces => respace s piece :: pieces.map canonicalType

theorem cutColons_cons {c : Char} {cs : List Char} (h : c = ':' → cs.head? ≠ some ':') :
    Text.cutColons (c :: cs) = Text.consToFirst c (Text.cutColons cs) := by
  rw [Text.cutColons]
  intro ds he hd
  exact h he (by rw [hd]; rfl)

theorem cutColons_of_ne {c : Char} (h : c ≠ ':') (cs : List Char) :
    Text.cutColons (c :: cs) = Text.consToFirst c (Text.cutColons cs) :=
  cutColons_cons fun he => absurd he h

theorem exists_cutColons (cs : List Char) :
    ∃ piece pieces, Text.cutColons cs = piece :: pieces ∧
      (piece.head? = cs.head? ∨ piece = []) := by
  cases cs with
  | nil => exact ⟨[], [], rfl, .inr rfl⟩
  | cons c cs =>
    by_cases pair : c = ':' ∧ cs.head? = some ':'
    · obtain ⟨rfl, hd⟩ := pair
      obtain ⟨cs, rfl⟩ := List.head?_eq_some_iff.mp hd
      exact ⟨[], Text.cutColons cs, rfl, .inr rfl⟩
    · rw [cutColons_cons fun he hd => pair ⟨he, hd⟩]
      cases Text.cutColons cs with
      | nil => exact ⟨[c], [], rfl, .inl rfl⟩
      | cons piece pieces => exact ⟨c :: piece, pieces, rfl, .inl rfl⟩

theorem cutColons_owed (s : Spacing) {c : Char} {cs piece : List Char} {pieces : List (List Char)}
    (h : c = ':' → cs.head? ≠ some ':') (he : Text.cutColons cs = piece :: pieces) :
    Text.cutColons (s.owed ++ c :: cs) = (s.owed ++ c :: piece) :: pieces := by
  have plain : Text.cutColons (c :: cs) = (c :: piece) :: pieces := by
    rw [cutColons_cons h, he]
    rfl
  cases s with
  | tight => exact plain
  | joined => exact plain
  | apart =>
    change Text.cutColons (' ' :: c :: cs) = _
    rw [cutColons_of_ne (by decide), plain]
    rfl

theorem cutColons_respace (s : Spacing) (cs : List Char) (h : colonsApart cs = true) :
    Text.cutColons (respace s cs) = respacePieces s (Text.cutColons cs) := by
  induction s, cs using spacing_induction with
  | nil s => rfl
  | colons s cs ih =>
    obtain ⟨piece, pieces, he, -⟩ := exists_cutColons cs
    have rest := ih (colonsApart_of_cons (colonsApart_of_cons h))
    rw [respace_colons, Text.cutColons, Text.cutColons, rest, he]
    rfl
  | colon s cs hd ih =>
    obtain ⟨piece, pieces, he, head⟩ := exists_cutColons cs
    have rest := ih (colonsApart_of_cons h)
    have single : (respace .joined cs).head? ≠ some ':' := fun head =>
      hd (head?_of_colonsApart h head)
    have front : piece.head? ≠ some ':' := by
      rcases head with head | head
      · rwa [head]
      · simp [head]
    rw [he] at rest
    rw [respace_colon hd, cutColons_owed s (fun _ => single) rest, cutColons_cons (fun _ => hd), he]
    exact congrArg (· :: pieces.map canonicalType) (respace_colon front).symm
  | blank s c cs hc ih =>
    obtain ⟨piece, pieces, he, -⟩ := exists_cutColons cs
    have rest := ih (colonsApart_of_cons h)
    rw [respace_blank hc, rest, cutColons_of_ne (ne_colon_of_isBlank hc), he]
    exact congrArg (· :: pieces.map canonicalType) (respace_blank hc).symm
  | comma s cs ih =>
    obtain ⟨piece, pieces, he, -⟩ := exists_cutColons cs
    have rest := ih (colonsApart_of_cons h)
    rw [respace_comma, cutColons_of_ne (by decide), cutColons_of_ne (by decide), rest,
      cutColons_of_ne (by decide), he]
    rfl
  | angle s c cs hc ih =>
    obtain ⟨piece, pieces, he, -⟩ := exists_cutColons cs
    have rest := ih (colonsApart_of_cons h)
    have other : c ≠ ':' := by rcases hc with rfl | rfl <;> decide
    rw [respace_angle hc, cutColons_of_ne other, rest,
      cutColons_of_ne other, he]
    exact congrArg (· :: pieces.map canonicalType) (respace_angle hc).symm
  | inert s c cs hc ih =>
    obtain ⟨piece, pieces, he, -⟩ := exists_cutColons cs
    have rest := ih (colonsApart_of_cons h)
    rw [he] at rest
    rw [respace_inert hc, cutColons_owed s (fun hd => absurd hd hc.2.2) rest,
      cutColons_of_ne hc.2.2, he]
    exact congrArg (· :: pieces.map canonicalType) (respace_inert hc).symm

/-! ### Segments of a path -/

theorem exists_trim (cs : List Char) :
    ∃ before behind, cs = before ++ (Text.trim cs ++ behind) ∧ (∀ c ∈ before, isBlank c = true) ∧
      ∀ c ∈ behind, isBlank c = true := by
  have ends (cs : List Char) :
      ∃ behind, cs = Text.trimEnd cs ++ behind ∧ ∀ c ∈ behind, isBlank c = true := by
    induction cs with
    | nil => exact ⟨[], rfl, by simp⟩
    | cons c cs ih =>
      obtain ⟨behind, he, blanks⟩ := ih
      rw [Text.trimEnd_cons]
      split
      · next drop =>
        rw [Bool.and_eq_true, List.isEmpty_iff] at drop
        rw [drop.1, List.nil_append] at he
        refine ⟨c :: cs, rfl, List.forall_mem_cons.mpr ⟨drop.2, ?_⟩⟩
        rw [he]
        exact blanks
      · exact ⟨behind, congrArg (c :: ·) he, blanks⟩
  obtain ⟨behind, he, blanks⟩ := ends (Text.trimStart cs)
  refine ⟨cs.takeWhile isBlank, behind, ?_, List.all_eq_true.mp List.all_takeWhile, blanks⟩
  exact (List.takeWhile_append_dropWhile (p := isBlank) (l := cs)).symm.trans
    (congrArg (cs.takeWhile isBlank ++ ·) he)

theorem canonicalType_trim (cs : List Char) :
    canonicalType (Text.trim cs) = canonicalType cs := by
  obtain ⟨before, behind, he, front, blanks⟩ := exists_trim cs
  have same : canonicalType cs = canonicalType (Text.trim cs) := by
    rw [he, canonicalType, respace_blank_append rfl front, respace_append_blank _ _ blanks, ← he]
    rfl
  exact same.symm

theorem trim_eq_nil_iff (cs : List Char) : Text.trim cs = [] ↔ ∀ c ∈ cs, isBlank c = true := by
  constructor
  · intro none
    obtain ⟨before, behind, he, front, blanks⟩ := exists_trim cs
    rw [none, List.nil_append] at he
    rw [he]
    intro c hc
    exact (List.mem_append.mp hc).elim (front c) (blanks c)
  · intro blanks
    have none : Text.trimStart cs = [] := List.dropWhile_eq_nil_iff.mpr blanks
    rw [Text.trim, none]
    rfl

theorem trim_canonicalType_eq_nil_iff (cs : List Char) :
    Text.trim (canonicalType cs) = [] ↔ Text.trim cs = [] := by
  rw [trim_eq_nil_iff, trim_eq_nil_iff]
  constructor
  · intro blanks c hc
    cases hb : isBlank c with
    | true => rfl
    | false => exact hb ▸ blanks c ((mem_respace hb .tight cs).mpr hc)
  · intro blanks c hc
    rw [canonicalType, respace_of_blank blanks] at hc
    cases hc

/-- A segment of a path in the canonical spelling, for the comments and arguments it may hold. -/
def respelledSegment (s : String) : String := Text.trimmed (normalizeType s)

theorem pathSegments_canonicalType {cs : List Char} (h : colonsApart cs = true) :
    pathSegments (canonicalType cs) = (pathSegments cs).map respelledSegment := by
  have pieces : Text.cutColons (canonicalType cs) = (Text.cutColons cs).map canonicalType := by
    rw [canonicalType, cutColons_respace .tight cs h]
    cases Text.cutColons cs <;> rfl
  rw [pathSegments, pathSegments, pieces]
  induction Text.cutColons cs with
  | nil => rfl
  | cons piece pieces ih =>
    by_cases none : Text.trim piece = []
    · have spelled := (trim_canonicalType_eq_nil_iff piece).mpr none
      simpa [none, spelled] using ih
    · have spelled := mt (trim_canonicalType_eq_nil_iff piece).mp none
      have segment : respelledSegment (String.ofList (Text.trim piece)) =
          String.ofList (Text.trim (canonicalType piece)) := by
        simp [respelledSegment, Text.trimmed, normalizeType, canonicalType_trim]
      simpa [none, spelled, segment] using ih

theorem trim_append_blank (cs : List Char) {b : List Char} (h : ∀ c ∈ b, isBlank c = true) :
    Text.trim (cs ++ b) = Text.trim cs := by
  have ends (cs : List Char) : Text.trimEnd (cs ++ b) = Text.trimEnd cs := by
    induction cs with
    | nil =>
      induction b with
      | nil => rfl
      | cons c b ih =>
        have rest := ih fun d hd => h d (List.mem_cons_of_mem c hd)
        rw [List.nil_append] at rest ⊢
        rw [Text.trimEnd_cons, rest, h c (List.mem_cons_self ..)]
        rfl
    | cons c cs ih => rw [List.cons_append, Text.trimEnd_cons, Text.trimEnd_cons, ih]
  rw [Text.trim, Text.trim, Text.trimStart, Text.trimStart, List.dropWhile_append]
  split
  · next none =>
    rw [List.isEmpty_iff] at none
    rw [none, List.dropWhile_eq_nil_iff.mpr h]
  · exact ends _

theorem cutColons_append_blank (cs : List Char) {b : List Char} (h : ∀ c ∈ b, isBlank c = true) :
    ∃ pieces last, Text.cutColons cs = pieces ++ [last] ∧
      Text.cutColons (cs ++ b) = pieces ++ [last ++ b] := by
  have front : b.head? ≠ some ':' := fun hd =>
    ne_colon_of_isBlank (h ':' (List.mem_of_mem_head? hd)) rfl
  induction cs using Text.cutColons.induct with
  | case1 =>
    refine ⟨[], [], rfl, ?_⟩
    induction b with
    | nil => rfl
    | cons c b ih =>
      have behind : ∀ d ∈ b, isBlank d = true := fun d hd => h d (List.mem_cons_of_mem c hd)
      have rest := ih behind fun hd =>
        ne_colon_of_isBlank (behind ':' (List.mem_of_mem_head? hd)) rfl
      rw [List.nil_append] at rest ⊢
      rw [cutColons_of_ne (ne_colon_of_isBlank (h c (List.mem_cons_self ..))), rest]
      rfl
  | case2 cs ih =>
    obtain ⟨pieces, last, he, hb⟩ := ih
    exact ⟨[] :: pieces, last, congrArg ([] :: ·) he, congrArg ([] :: ·) hb⟩
  | case3 c cs other ih =>
    have single (he : c = ':') : cs.head? ≠ some ':' := by
      intro hd
      obtain ⟨cs, rfl⟩ := List.head?_eq_some_iff.mp hd
      exact other cs he rfl
    have single' (he : c = ':') : (cs ++ b).head? ≠ some ':' := by
      cases cs with
      | nil => exact front
      | cons d cs => exact single he
    obtain ⟨pieces, last, he, hb⟩ := ih
    rw [List.cons_append, cutColons_cons single, cutColons_cons single', he, hb]
    cases pieces with
    | nil => exact ⟨[], c :: last, rfl, rfl⟩
    | cons piece pieces => exact ⟨(c :: piece) :: pieces, last, rfl, rfl⟩

theorem pathSegments_append_blank (cs : List Char) {b : List Char}
    (h : ∀ c ∈ b, isBlank c = true) : pathSegments (cs ++ b) = pathSegments cs := by
  obtain ⟨pieces, last, he, hb⟩ := cutColons_append_blank cs h
  rw [pathSegments, pathSegments, he, hb, List.map_append, List.map_append, List.map_singleton,
    List.map_singleton, trim_append_blank last h]

theorem trim_of_inert {cs : List Char} (h : ∀ c ∈ cs, IsInert c) : Text.trim cs = cs := by
  have start : Text.trimStart cs = cs := by
    cases cs with
    | nil => rfl
    | cons c cs =>
      exact List.dropWhile_cons_of_neg (by simp [(h c (List.mem_cons_self ..)).1])
  rw [Text.trim, start]
  clear start
  induction cs with
  | nil => rfl
  | cons c cs ih =>
    rw [Text.trimEnd_cons, ih fun d hd => h d (List.mem_cons_of_mem c hd),
      (h c (List.mem_cons_self ..)).1, Bool.and_false]
    rfl

theorem respelledSegment_of_inert {s : String} (h : ∀ c ∈ s.toList, IsInert c) :
    respelledSegment s = s := by
  have same : canonicalType s.toList = s.toList := by
    cases hs : s.toList with
    | nil => rfl
    | cons c cs =>
      rw [hs] at h
      have rest := respace_eq_self fun d hd => h d (List.mem_cons_of_mem c hd)
      rw [canonicalType, respace_inert (h c (List.mem_cons_self ..)), rest]
      rfl
  have text : (normalizeType s).toList = s.toList := by
    rw [normalizeType, String.toList_ofList, same]
  rw [respelledSegment, Text.trimmed, text, trim_of_inert h, String.ofList_toList]

end AnchorHarness.Rust
