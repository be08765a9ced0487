import AnchorHarness.Workspace.Storing
import Mathlib.Data.List.DropRight
import Mathlib.Data.List.Infix

/-!
# Locations in a tree

In a tree as a file system keeps it, whatever stands anywhere stands in a directory. So there are
only directories above it, and a path that never goes up leads where its segments say, unless a file
is in its way or a directory on it is missing.
-/

namespace AnchorHarness.Workspace

/-- One location is on the way to another. -/
def IsAbove (m l : Location) : Prop := m <+: l ∧ m ≠ l

instance (m l : Location) : Decidable (IsAbove m l) := inferInstanceAs (Decidable (_ ∧ _))

/-- A file or a directory can stand there: no name on the way holds the character NUL. -/
def IsNameable (l : Location) : Prop := ∀ name ∈ l, '\x00' ∉ name.toList

namespace FileTree

/-- A tree as a file system keeps it. -/
structure IsSound (t : FileTree) : Prop where
  rooted : ∀ l n, l ≠ [] → t.lookup l = some n → t.lookup l.dropLast = some .directory
  named : ∀ l n, t.lookup l = some n → IsNameable l

def IsOpen (t : FileTree) (l : Location) : Prop := ∀ m, IsAbove m l → t.lookup m = some .directory

def IsBlocked (t : FileTree) (l : Location) : Prop :=
  ∃ m content, IsAbove m l ∧ t.lookup m = some (.file content)

end FileTree

/-! ### The way to a location -/

theorem isAbove_concat {m l : Location} {name : String} :
    IsAbove m (l ++ [name]) ↔ m = l ∨ IsAbove m l := by
  unfold IsAbove
  rw [List.prefix_concat_iff]
  constructor
  · rintro ⟨rfl | inside, other⟩
    · exact absurd rfl other
    · exact (eq_or_ne m l).imp id fun ne => ⟨inside, ne⟩
  · rintro (rfl | ⟨inside, -⟩)
    · exact ⟨.inr List.prefix_rfl, by simp⟩
    · refine ⟨.inr inside, ?_⟩
      rintro rfl
      have longer := inside.length_le
      rw [List.length_append, List.length_singleton] at longer
      omega

theorem not_isAbove_nil {m : Location} : ¬IsAbove m [] := fun h => h.2 (List.prefix_nil.mp h.1)

theorem IsAbove.trans {k m l : Location} (h : IsAbove k m) (h' : m <+: l) : IsAbove k l := by
  refine ⟨h.1.trans h', ?_⟩
  rintro rfl
  exact h.2 (h.1.eq_of_length_le h'.length_le)

theorem isAbove_dropLast {l : Location} (h : l ≠ []) : IsAbove l.dropLast l := by
  have inside : l.dropLast <+: l := List.dropLast_prefix l
  refine ⟨inside, fun same => ?_⟩
  have shorter := congrArg List.length same
  have filled := List.length_pos_iff.mpr h
  rw [List.length_dropLast] at shorter
  omega

theorem isAbove_iff_prefix_dropLast {m l : Location} (h : l ≠ []) :
    IsAbove m l ↔ m <+: l.dropLast := by
  rw [← List.dropLast_append_getLast h, isAbove_concat, List.dropLast_concat]
  constructor
  · rintro (rfl | above)
    · exact List.prefix_rfl
    · exact above.1
  · exact fun inside => (eq_or_ne m l.dropLast).imp id fun ne => ⟨inside, ne⟩

theorem IsNameable.upward {m l : Location} (h : IsNameable l) (inside : m <+: l) : IsNameable m :=
  fun name there => h name (inside.subset there)

theorem IsNameable.dropLast {l : Location} (h : IsNameable l) : IsNameable l.dropLast := by
  have inside : l.dropLast <+: l := List.dropLast_prefix l
  exact h.upward inside

namespace FileTree

variable {t : FileTree}

theorem lookup_nil (t : FileTree) : t.lookup [] = some .directory := rfl

/-- Above anything there are only directories. -/
theorem IsSound.isOpen (sound : t.IsSound) {l : Location} {n : Node} (h : t.lookup l = some n) :
    t.IsOpen l := by
  induction l using List.reverseRecOn generalizing n with
  | nil => exact fun m above => absurd above not_isAbove_nil
  | append_singleton l name ih =>
    intro m above
    have parent := sound.rooted _ n (by simp) h
    rw [List.dropLast_concat] at parent
    rcases isAbove_concat.mp above with rfl | above
    · exact parent
    · exact ih parent m above

theorem IsOpen.not_isBlocked {l : Location} (h : t.IsOpen l) : ¬t.IsBlocked l := by
  rintro ⟨m, content, above, file⟩
  rw [h m above] at file
  cases file

theorem IsBlocked.downward {m l : Location} (h : t.IsBlocked m) (inside : m <+: l) :
    t.IsBlocked l := by
  obtain ⟨k, content, above, file⟩ := h
  exact ⟨k, content, above.trans inside, file⟩

theorem IsSound.not_isBlocked (sound : t.IsSound) {l : Location} {n : Node}
    (h : t.lookup l = some n) : ¬t.IsBlocked l := (sound.isOpen h).not_isBlocked

theorem isBlocked_concat {l : Location} {name : String} :
    t.IsBlocked (l ++ [name]) ↔ (∃ content, t.lookup l = some (.file content)) ∨ t.IsBlocked l := by
  constructor
  · rintro ⟨m, content, above, file⟩
    rcases isAbove_concat.mp above with rfl | above
    · exact .inl ⟨content, file⟩
    · exact .inr ⟨m, content, above, file⟩
  · rintro (⟨content, file⟩ | blocked)
    · exact ⟨l, content, isAbove_concat.mpr (.inl rfl), file⟩
    · exact blocked.downward (List.prefix_append l [name])

theorem isOpen_concat {l : Location} {name : String} :
    t.IsOpen (l ++ [name]) ↔ t.lookup l = some .directory ∧ t.IsOpen l := by
  simp only [IsOpen, isAbove_concat, or_imp, forall_and, forall_eq]

end FileTree

/-! ### Paths that never go up -/

/-- Each segment of the path leads one step down. -/
def Path.IsStraight (p : Path) : Prop := ∀ s ∈ p.segments, s ≠ "" ∧ s ≠ stay ∧ s ≠ up

/-- Where the segments of a path lead to, if none of them goes up. -/
def Path.location (start : Location) (p : Path) : Location :=
  (if p.isAbsolute then [] else start) ++ p.segments

theorem isStraight_ofText {text : String} (h : up ∉ (Path.ofText text).segments) :
    (Path.ofText text).IsStraight := by
  intro s hs
  have proper : Path.isProper s = true := (List.mem_filter.mp hs).2
  simp only [Path.isProper, Bool.not_eq_true', Bool.or_eq_false_iff, decide_eq_false_iff_not] at proper
  refine ⟨?_, proper.2, ?_⟩
  · rintro rfl
    exact absurd proper.1 (by decide)
  · rintro rfl
    exact h hs

theorem Path.IsStraight.parent {p : Path} (h : p.IsStraight) : p.parent.IsStraight :=
  fun s hs => h s (List.dropLast_subset _ hs)

namespace FileTree

variable {t : FileTree}

theorem enter_eq (l : Location) {segment : String}
    (straight : segment ≠ "" ∧ segment ≠ stay ∧ segment ≠ up) :
    t.enter l segment =
      match t.lookup l with
      | none => .error .missing
      | some (.file _) => .error .notDirectory
      | some .directory => .ok (l ++ [segment]) := by
  have filled : segment.isEmpty = false := by
    rw [Bool.eq_false_iff, ne_eq, String.isEmpty_iff]
    exact straight.1
  have named : ¬(segment.isEmpty || segment = stay) = true := by simp [filled, straight.2.1]
  have last : (if segment.isEmpty || segment = stay then l
      else if segment = up then l.dropLast else l ++ [segment]) = l ++ [segment] :=
    (if_neg named).trans (if_neg straight.2.2)
  rcases there : t.lookup l with _ | _ | _ <;> simp only [enter, there, last]

/-- The last step of a path, once the others are made. -/
theorem foldlM_enter_concat (base : Location) (segments : List String) {segment : String}
    (straight : segment ≠ "" ∧ segment ≠ stay ∧ segment ≠ up) :
    (segments ++ [segment]).foldlM t.enter base = segments.foldlM t.enter base >>= fun l =>
      match t.lookup l with
      | none => .error .missing
      | some (.file _) => .error .notDirectory
      | some .directory => .ok (l ++ [segment]) := by
  rw [List.foldlM_append]
  refine bind_congr fun l => ?_
  rw [← enter_eq l straight]
  exact bind_pure (t.enter l segment)

theorem foldlM_enter_of_isOpen {base : Location} {segments : List String}
    (straight : ∀ s ∈ segments, s ≠ "" ∧ s ≠ stay ∧ s ≠ up) (h : t.IsOpen (base ++ segments)) :
    segments.foldlM t.enter base = .ok (base ++ segments) := by
  induction segments using List.reverseRecOn with
  | nil => rw [List.append_nil]; rfl
  | append_singleton segments segment ih =>
    rw [← List.append_assoc] at h ⊢
    obtain ⟨parent, above⟩ := isOpen_concat.mp h
    rw [foldlM_enter_concat base segments (straight segment (by simp)),
      ih (fun s hs => straight s (List.mem_append_left _ hs)) above]
    change (match t.lookup (base ++ segments) with
      | none => _
      | some (.file _) => _
      | some .directory => _) = _
    rw [parent]

/-- What comes of following a path: it leads to a location, a file is in its way, or a directory on
it is missing. -/
theorem foldlM_enter_cases (sound : t.IsSound) {base : Location}
    (top : t.lookup base = some .directory) {segments : List String}
    (straight : ∀ s ∈ segments, s ≠ "" ∧ s ≠ stay ∧ s ≠ up) :
    (t.IsOpen (base ++ segments) ∧ segments.foldlM t.enter base = .ok (base ++ segments)) ∨
      (t.IsBlocked (base ++ segments) ∧ segments.foldlM t.enter base = .error .notDirectory) ∨
      (¬t.IsOpen (base ++ segments) ∧ ¬t.IsBlocked (base ++ segments) ∧
        segments.foldlM t.enter base = .error .missing) := by
  induction segments using List.reverseRecOn with
  | nil =>
    refine .inl ⟨?_, by rw [List.append_nil]; rfl⟩
    rw [List.append_nil]
    exact sound.isOpen top
  | append_singleton segments segment ih =>
    rw [foldlM_enter_concat base segments (straight segment (by simp)), ← List.append_assoc,
      isOpen_concat, isBlocked_concat]
    obtain ⟨opened, followed⟩ | ⟨blocked, followed⟩ | ⟨closed, unblocked, followed⟩ :=
      ih fun s hs => straight s (List.mem_append_left _ hs)
    · rw [followed]
      -- The way is open up to the last directory, so it decides.
      cases last : t.lookup (base ++ segments) with
      | none =>
        refine .inr (.inr ⟨by simp, ?_, by simp [bind, Except.bind, last]⟩)
        simpa using opened.not_isBlocked
      | some n =>
        cases n with
        | file content => exact .inr (.inl ⟨.inl ⟨content, rfl⟩, by simp [bind, Except.bind, last]⟩)
        | directory => exact .inl ⟨⟨rfl, opened⟩, by simp [bind, Except.bind, last]⟩
    · exact .inr (.inl ⟨.inr blocked, by rw [followed]; rfl⟩)
    · refine .inr (.inr ⟨fun h => closed h.2, ?_, by rw [followed]; rfl⟩)
      rintro (⟨content, file⟩ | blocked)
      · exact closed (sound.isOpen file)
      · exact unblocked blocked

section

variable {start : Location} {p : Path}

theorem follow_of_isOpen (straight : p.IsStraight) (h : t.IsOpen (p.location start)) :
    t.follow start p = .ok (p.location start) := foldlM_enter_of_isOpen straight h

theorem makeDirectory_of_isOpen (straight : p.IsStraight) (h : t.IsOpen (p.location start)) :
    t.makeDirectory start p =
      match t.lookup (p.location start) with
      | none => .ok (t.put (p.location start) .directory)
      | some _ => .error .alreadyExists := by
  unfold makeDirectory
  rw [follow_of_isOpen straight h]
  change (match t.lookup (p.location start) with | none => _ | some _ => _) = _
  cases t.lookup (p.location start) <;> rfl

theorem write_of_isOpen (straight : p.IsStraight) (h : t.IsOpen (p.location start))
    (content : String) :
    t.write start p content =
      if t.lookup (p.location start) = some .directory then .error .isDirectory
      else .ok (t.put (p.location start) (.file content)) := by
  have unslashed : p.segments.getLast? ≠ some "" := fun last =>
    (straight "" (List.mem_of_getLast? last)).1 rfl
  have kept : p.segments.rdropWhile String.isEmpty = p.segments := by
    refine List.rdropWhile_eq_self_iff.mpr fun filled => ?_
    rw [String.isEmpty_iff]
    exact (straight _ (List.getLast_mem filled)).1
  rw [List.rdropWhile] at kept
  unfold write target
  rw [kept]
  change ((t.follow start p >>= fun l => _).map _) = _
  rw [follow_of_isOpen straight h]
  simp only [bind, Except.bind, unslashed, decide_false, Bool.false_or, isDirectory, beq_iff_eq]
  split <;> rfl

variable (sound : t.IsSound) (top : t.lookup start = some .directory) (straight : p.IsStraight)

include sound top straight

theorem follow_cases :
    (t.IsOpen (p.location start) ∧ t.follow start p = .ok (p.location start)) ∨
      (t.IsBlocked (p.location start) ∧ t.follow start p = .error .notDirectory) ∨
      (¬t.IsOpen (p.location start) ∧ ¬t.IsBlocked (p.location start) ∧
        t.follow start p = .error .missing) := by
  unfold Path.location follow
  refine foldlM_enter_cases sound ?_ straight
  split
  · exact lookup_nil t
  · exact top

theorem find?_eq :
    t.find? start p = (t.lookup (p.location start)).map fun n => (p.location start, n) := by
  unfold find?
  obtain ⟨-, followed⟩ | ⟨blocked, followed⟩ | ⟨closed, -, followed⟩ :=
    follow_cases sound top straight
  · rw [followed]
  · rw [followed]
    cases found : t.lookup (p.location start) with
    | none => rfl
    | some n => exact absurd blocked (sound.not_isBlocked found)
  · rw [followed]
    cases found : t.lookup (p.location start) with
    | none => rfl
    | some n => exact absurd (sound.isOpen found) closed

theorem contains_eq : t.contains start p = (t.lookup (p.location start)).isSome := by
  rw [contains, find?_eq sound top straight, Option.isSome_map]

theorem isDirectoryAt_iff :
    t.isDirectoryAt start p = true ↔ t.lookup (p.location start) = some .directory := by
  unfold isDirectoryAt
  rw [find?_eq sound top straight]
  cases found : t.lookup (p.location start) with
  | none => simp
  | some n => cases n <;> simp

end

end FileTree

end AnchorHarness.Workspace
