import AnchorHarness.Proofs.Workspace.Locations
import Mathlib.Tactic.SplitIfs

/-!
# Creating a file

What creating a file does to the tree. It is kept, it is written together with the directories that
are missing above it, or the call is refused: a file is in the way, a directory stands in its place,
or no file can have its name. Only for its name a call can be refused after directories were made.
-/

namespace AnchorHarness.Workspace

variable {t : FileTree} {start : Location} {p : Path}

/-! ### Names -/

theorem isNameable_iff : p.isNameable = true ↔ IsNameable p.segments := by
  simp [Path.isNameable, IsNameable, List.contains_eq_mem]

theorem isNameable_location (named : IsNameable start) :
    p.isNameable = true ↔ IsNameable (p.location start) := by
  rw [isNameable_iff, Path.location]
  constructor
  · intro h name there
    obtain inside | inside := List.mem_append.mp there
    · split at inside
      · cases inside
      · exact named name inside
    · exact h name inside
  · exact fun h name there => h name (List.mem_append_right _ there)

/-! ### Making directories -/

/-- One tree is the other with directories all the way to a location. -/
def HasWay (t : FileTree) (l : Location) (made : FileTree) : Prop :=
  ∀ m, made.lookup m = if m <+: l then some .directory else t.lookup m

theorem HasWay.isOpen {l : Location} {name : String} {made : FileTree} (h : HasWay t l made) :
    made.IsOpen (l ++ [name]) := by
  intro m above
  obtain rfl | above := isAbove_concat.mp above
  · rw [h, if_pos List.prefix_rfl]
  · rw [h, if_pos above.1]

theorem HasWay.put {l : Location} {name : String} {made : FileTree} (h : HasWay t l made) :
    HasWay t (l ++ [name]) (made.put (l ++ [name]) .directory) := by
  intro m
  rw [FileTree.lookup_put _ _ _ _ (by simp), h]
  simp only [List.prefix_concat_iff]
  by_cases same : l ++ [name] = m
  · simp [same]
  · simp [same, Ne.symm same]

theorem hasWay_of_directory (sound : t.IsSound) {l : Location}
    (there : t.lookup l = some .directory) : HasWay t l t := by
  intro m
  split
  · next inside =>
    by_cases same : m = l
    · rw [same, there]
    · exact sound.isOpen there m ⟨inside, same⟩
  · rfl

section

variable (sound : t.IsSound) (top : t.lookup start = some .directory) (straight : p.IsStraight)
  (nameable : p.isNameable = true)

include sound top straight nameable

theorem makeDirectories_of_directory (there : t.lookup (p.location start) = some .directory) :
    makeDirectories t start p = (t, .ok ()) := by
  have directory := (FileTree.isDirectoryAt_iff sound top straight).mpr there
  rw [makeDirectories, if_pos nameable,
    FileTree.makeDirectory_of_isOpen straight (sound.isOpen there), there]
  simp only [acceptDirectory, directory, if_true]

theorem makeDirectories_of_file {content : String}
    (there : t.lookup (p.location start) = some (.file content)) :
    makeDirectories t start p = (t, .error (.obstructed .alreadyExists p)) := by
  have directory : t.isDirectoryAt start p = false := by
    rw [Bool.eq_false_iff, ne_eq, FileTree.isDirectoryAt_iff sound top straight, there]
    simp
  rw [makeDirectories, if_pos nameable,
    FileTree.makeDirectory_of_isOpen straight (sound.isOpen there), there]
  simp only [acceptDirectory, directory, Bool.false_eq_true, if_false]

theorem makeDirectories_of_isBlocked (blocked : t.IsBlocked (p.location start)) :
    makeDirectories t start p = (t, .error (.obstructed .notDirectory p)) := by
  obtain ⟨opened, -⟩ | ⟨-, followed⟩ | ⟨-, unblocked, -⟩ := FileTree.follow_cases sound top straight
  · exact absurd blocked opened.not_isBlocked
  · have directory : t.isDirectoryAt start p = false := by
      rw [Bool.eq_false_iff, ne_eq, FileTree.isDirectoryAt_iff sound top straight]
      exact fun there => sound.not_isBlocked there blocked
    have stopped : t.makeDirectory start p = .error .notDirectory := by
      unfold FileTree.makeDirectory
      rw [followed]
      rfl
    rw [makeDirectories, if_pos nameable, stopped]
    simp only [acceptDirectory, directory, Bool.false_eq_true, if_false]
  · exact absurd blocked unblocked

end

theorem location_concat (root : String) (segments : List String) (segment : String) :
    Path.location start ⟨root, segments ++ [segment]⟩ =
      Path.location start ⟨root, segments⟩ ++ [segment] :=
  (List.append_assoc _ segments [segment]).symm

theorem makeLast_of_hasWay {l : Location} {name : String} {made : FileTree} (way : HasWay t l made)
    (straight : p.IsStraight) (here : p.location start = l ++ [name])
    (absent : t.lookup (l ++ [name]) = none) :
    ∃ all, makeLast made start p = (all, .ok ()) ∧ HasWay t (l ++ [name]) all := by
  refine ⟨made.put (l ++ [name]) .directory, ?_, way.put⟩
  have outside : ¬(l ++ [name]) <+: l := by
    intro inside
    have shorter := inside.length_le
    rw [List.length_append, List.length_singleton] at shorter
    omega
  have still : made.lookup (l ++ [name]) = none := by rw [way, if_neg outside, absent]
  rw [makeLast, FileTree.makeDirectory_of_isOpen straight (here ▸ way.isOpen), here, still]

/-- Directories are made unless a file is in the way or in the last one's place. -/
theorem exists_makeDirectories (sound : t.IsSound) (top : t.lookup start = some .directory)
    {root : String} {segments : List String} (straight : Path.IsStraight ⟨root, segments⟩)
    (nameable : Path.isNameable ⟨root, segments⟩ = true)
    (unblocked : ¬t.IsBlocked (Path.location start ⟨root, segments⟩))
    (free : ∀ content, t.lookup (Path.location start ⟨root, segments⟩) ≠ some (.file content)) :
    ∃ made, makeDirectories t start ⟨root, segments⟩ = (made, .ok ()) ∧
      HasWay t (Path.location start ⟨root, segments⟩) made := by
  have done (there : t.lookup (Path.location start ⟨root, segments⟩) = some .directory) :
      ∃ made, makeDirectories t start ⟨root, segments⟩ = (made, .ok ()) ∧
        HasWay t (Path.location start ⟨root, segments⟩) made :=
    ⟨t, makeDirectories_of_directory sound top straight nameable there,
      hasWay_of_directory sound there⟩
  induction segments using List.reverseRecOn with
  | nil =>
    refine done ?_
    simp only [Path.location, List.append_nil]
    split
    · exact t.lookup_nil
    · exact top
  | append_singleton segments segment ih =>
    cases there : t.lookup (Path.location start ⟨root, segments ++ [segment]⟩) with
    | some n =>
      cases n with
      | file content => exact absurd there (free content)
      | directory => exact done there
    | none =>
      have parentStraight : Path.IsStraight ⟨root, segments⟩ :=
        fun s hs => straight s (List.mem_append_left _ hs)
      have parentNameable : Path.isNameable ⟨root, segments⟩ = true :=
        isNameable_iff.mpr fun s hs =>
          isNameable_iff.mp nameable s (List.mem_append_left _ hs)
      obtain ⟨opened, followed⟩ | ⟨blocked, -⟩ | ⟨closed, -, followed⟩ :=
        FileTree.follow_cases sound top straight
      · -- Only the last directory is missing.
        have stopped := FileTree.makeDirectory_of_isOpen straight opened
        rw [there] at stopped
        rw [makeDirectories, if_pos nameable, stopped]
        refine ⟨_, rfl, ?_⟩
        rw [location_concat] at opened ⊢
        exact (hasWay_of_directory sound (FileTree.isOpen_concat.mp opened).1).put
      · exact absurd blocked unblocked
      · rw [location_concat] at unblocked there closed ⊢
        rw [FileTree.isBlocked_concat, not_or, not_exists] at unblocked
        obtain ⟨made, step, way⟩ := ih parentStraight parentNameable unblocked.2 unblocked.1
          fun parent => ⟨t, makeDirectories_of_directory sound top parentStraight parentNameable
            parent, hasWay_of_directory sound parent⟩
        have stopped : t.makeDirectory start ⟨root, segments ++ [segment]⟩ = .error .missing := by
          unfold FileTree.makeDirectory
          rw [followed]
          rfl
        have parent : Path.parent ⟨root, segments ++ [segment]⟩ = ⟨root, segments⟩ := by
          simp [Path.parent]
        rw [makeDirectories, if_pos nameable, stopped]
        simp only [List.append_eq_nil_iff, List.cons_ne_self, and_false, dite_false, parent, step]
        exact makeLast_of_hasWay way straight (location_concat root segments segment) there

/-! ### Creating a file -/

/-- What creating a file at a location makes of a tree, and what comes of it. -/
inductive Creates (t : FileTree) (l : Location) (content : String) (force : Bool) :
    FileTree × Except FileFault Creation → Prop where
  | skipped (there : t.lookup l ≠ none) (unforced : force = false) :
    Creates t l content force (t, .ok .skipped)
  | written (written : FileTree) (nameable : IsNameable l) (unblocked : ¬t.IsBlocked l)
    (free : t.lookup l ≠ some .directory) (allowed : t.lookup l = none ∨ force = true)
    (changed : ∀ m, written.lookup m =
      if m = l then some (.file content)
      else if IsAbove m l then some .directory else t.lookup m) :
    Creates t l content force (written, .ok (if t.lookup l = none then .created else .updated))
  | refused (fault : FileFault)
    (obstacle : t.IsBlocked l ∨ (t.lookup l = some .directory ∧ force = true)) :
    Creates t l content force (t, .error fault)
  | unnameable (made : FileTree) (unnameable : ¬IsNameable l)
    (changed : made = t ∨ IsNameable l.dropLast ∧ ¬t.IsBlocked l ∧
      ∀ m, made.lookup m = if IsAbove m l then some .directory else t.lookup m) :
    Creates t l content force (made, .error .unnameable)

theorem parent_of_nil (h : p.segments = []) : p.parent = p := by
  obtain ⟨root, segments⟩ := p
  subst h
  rfl

theorem location_parent (h : p.segments ≠ []) :
    p.parent.location start = (p.location start).dropLast := by
  simp only [Path.location, Path.parent, List.dropLast_append_of_ne_nil h]
  rfl

section

variable (sound : t.IsSound) (top : t.lookup start = some .directory) (straight : p.IsStraight)

include sound top straight

/-- Creating a file, once it is known that it is to be written. -/
theorem createFile_eq (content : String) (force : Bool)
    (allowed : t.lookup (p.location start) = none ∨ force = true) :
    createFile t start p content force =
      match makeDirectories t start p.parent with
      | (t', .error e) => (t', .error e)
      | (t', .ok ()) =>
        match writeFile t' start p content with
        | .error e => (t', .error e)
        | .ok t' =>
          (t', .ok (if t.lookup (p.location start) = none then .created else .updated)) := by
  unfold createFile
  rw [FileTree.contains_eq sound top straight]
  cases there : t.lookup (p.location start) with
  | none => rfl
  | some n =>
    have forced : force = true := by simpa [there] using allowed
    subst forced
    rfl

theorem createFile_of_directory (content : String)
    (there : t.lookup (p.location start) = some .directory) :
    Creates t (p.location start) content true (createFile t start p content true) := by
  have nameable := (isNameable_location (sound.named _ _ top)).mpr (sound.named _ _ there)
  have parent : t.lookup (p.parent.location start) = some .directory := by
    by_cases h : p.segments = []
    · rw [parent_of_nil h, there]
    · rw [location_parent h]
      refine sound.rooted _ _ ?_ there
      simp [Path.location, h]
  have parentNameable : p.parent.isNameable = true :=
    isNameable_iff.mpr fun s hs => isNameable_iff.mp nameable s (List.dropLast_subset _ hs)
  have refused : writeFile t start p content = .error (.obstructed .isDirectory p) := by
    rw [writeFile, if_pos nameable, FileTree.write_of_isOpen straight (sound.isOpen there),
      if_pos there]
    rfl
  rw [createFile_eq sound top straight content true (.inr rfl),
    makeDirectories_of_directory sound top straight.parent parentNameable parent]
  simp only [refused]
  exact .refused _ (.inr ⟨there, rfl⟩)

/-- Writing the file, once the directories above it are made. -/
theorem writeFile_creates (content : String) (force : Bool) {made : FileTree}
    (filled : p.location start ≠ []) (named : IsNameable (p.location start).dropLast)
    (allowed : t.lookup (p.location start) = none ∨ force = true)
    (unblocked : ¬t.IsBlocked (p.location start))
    (free : t.lookup (p.location start) ≠ some .directory)
    (changed : ∀ m, made.lookup m =
      if IsAbove m (p.location start) then some .directory else t.lookup m) :
    Creates t (p.location start) content force
      (match writeFile made start p content with
      | .error e => (made, .error e)
      | .ok t' =>
        (t', .ok (if t.lookup (p.location start) = none then .created else .updated))) := by
  have opened : made.IsOpen (p.location start) := fun m above => by rw [changed, if_pos above]
  have still : made.lookup (p.location start) = t.lookup (p.location start) := by
    rw [changed, if_neg fun above => above.2 rfl]
  by_cases nameable : p.isNameable = true
  · have done : writeFile made start p content =
        .ok (made.put (p.location start) (.file content)) := by
      rw [writeFile, if_pos nameable, FileTree.write_of_isOpen straight opened, still, if_neg free]
      rfl
    rw [done]
    refine .written _ ((isNameable_location (sound.named _ _ top)).mp nameable) unblocked free
      allowed fun m => ?_
    rw [FileTree.lookup_put _ _ _ _ filled, changed]
    simp only [eq_comm]
  · have failed : writeFile made start p content = .error .unnameable := by
      rw [writeFile, if_neg nameable]
    rw [failed]
    refine .unnameable made ?_ (.inr ⟨named, unblocked, changed⟩)
    rwa [← isNameable_location (sound.named _ _ top)]

theorem createFile_of_free (content : String) (force : Bool)
    (allowed : t.lookup (p.location start) = none ∨ force = true)
    (free : t.lookup (p.location start) ≠ some .directory) :
    Creates t (p.location start) content force (createFile t start p content force) := by
  have below : p.segments ≠ [] := by
    intro h
    apply free
    simp only [Path.location, h, List.append_nil]
    split
    · exact t.lookup_nil
    · exact top
  have filled : p.location start ≠ [] := by simp [Path.location, below]
  obtain ⟨name, split⟩ : ∃ name, p.location start = p.parent.location start ++ [name] := by
    refine ⟨(p.location start).getLast filled, ?_⟩
    rw [location_parent below, List.dropLast_append_getLast]
  rw [createFile_eq sound top straight content force allowed]
  by_cases nameable : p.parent.isNameable = true
  · by_cases blocked : t.IsBlocked (p.location start)
    · have stopped : ∃ e, makeDirectories t start p.parent = (t, .error e) := by
        rw [split, FileTree.isBlocked_concat] at blocked
        obtain ⟨content, file⟩ | blocked := blocked
        · exact ⟨_, makeDirectories_of_file sound top straight.parent nameable file⟩
        · exact ⟨_, makeDirectories_of_isBlocked sound top straight.parent nameable blocked⟩
      obtain ⟨e, stopped⟩ := stopped
      rw [stopped]
      exact .refused e (.inl blocked)
    · have unblocked := blocked
      rw [split, FileTree.isBlocked_concat, not_or, not_exists] at unblocked
      obtain ⟨made, step, way⟩ : ∃ made, makeDirectories t start p.parent = (made, .ok ()) ∧
          HasWay t (p.parent.location start) made :=
        exists_makeDirectories sound top straight.parent nameable unblocked.2 unblocked.1
      have named := (isNameable_location (sound.named _ _ top)).mp nameable
      rw [location_parent below] at named way
      rw [step]
      refine writeFile_creates sound top straight content force filled named allowed blocked free
        fun m => ?_
      simp only [isAbove_iff_prefix_dropLast filled]
      exact way m
  · have failed : makeDirectories t start p.parent = (t, .error .unnameable) := by
      rw [makeDirectories, if_neg nameable]
    rw [failed]
    refine .unnameable t (fun named => nameable ?_) (.inl rfl)
    rw [isNameable_location (sound.named _ _ top), location_parent below]
    exact named.dropLast

theorem createFile_creates (content : String) (force : Bool) :
    Creates t (p.location start) content force (createFile t start p content force) := by
  by_cases allowed : t.lookup (p.location start) = none ∨ force = true
  · by_cases directory : t.lookup (p.location start) = some .directory
    · have forced : force = true := by simpa [directory] using allowed
      subst forced
      exact createFile_of_directory sound top straight content directory
    · exact createFile_of_free sound top straight content force allowed directory
  · rw [not_or, Bool.not_eq_true] at allowed
    obtain ⟨there, rfl⟩ := allowed
    have kept : createFile t start p content false = (t, .ok .skipped) := by
      unfold createFile
      rw [FileTree.contains_eq sound top straight, Option.isSome_iff_ne_none.mpr there]
      rfl
    rw [kept]
    exact .skipped there rfl

end

/-! ### What one call leaves -/

/-- A tree stays sound when directories are put above a location, and a file, or nothing, there. -/
theorem isSound_of_changed (sound : t.IsSound) {l : Location} {node : Option Node}
    {changed : FileTree} (free : t.lookup l ≠ some .directory)
    (nameable : node ≠ none → IsNameable l) (above : IsNameable l.dropLast)
    (lookups : ∀ m, changed.lookup m =
      if m = l then node else if IsAbove m l then some .directory else t.lookup m) :
    changed.IsSound := by
  have filled : l ≠ [] := by
    rintro rfl
    exact free t.lookup_nil
  have onWay {m : Location} (h : IsAbove m l) : changed.lookup m = some .directory := by
    rw [lookups, if_neg h.2, if_pos h]
  refine ⟨fun m n ne there => ?_, fun m n there => ?_⟩
  · rw [lookups] at there
    split_ifs at there with same way
    · subst same
      exact onWay (isAbove_dropLast filled)
    · exact onWay ((isAbove_dropLast ne).trans way.1)
    · have parent := sound.rooted m n ne there
      rw [lookups]
      split_ifs with here
      · rw [here] at parent
        exact absurd parent free
      · rfl
      · exact parent
  · rw [lookups] at there
    split_ifs at there with same way
    · subst same
      exact nameable (by simp [there])
    · exact above.upward ((isAbove_iff_prefix_dropLast filled).mp way)
    · exact sound.named m n there

/-- Something stands at the location, or nothing can be created there. -/
def FileTree.IsDecided (t : FileTree) (l : Location) : Prop :=
  t.lookup l ≠ none ∨ t.IsBlocked l ∨ ¬IsNameable l

namespace Creates

variable {l : Location} {content : String} {force : Bool}
  {outcome : FileTree × Except FileFault Creation}

theorem isSound (h : Creates t l content force outcome) (sound : t.IsSound) :
    outcome.1.IsSound := by
  cases h with
  | skipped there unforced => exact sound
  | refused fault obstacle => exact sound
  | written written nameable unblocked free allowed changed =>
    exact isSound_of_changed sound free (fun _ => nameable) nameable.dropLast changed
  | unnameable made unnameable changed =>
    obtain rfl | ⟨named, unblocked, changed⟩ := changed
    · exact sound
    · have absent : t.lookup l = none := by
        by_contra there
        obtain ⟨n, hn⟩ := Option.ne_none_iff_exists'.mp there
        exact unnameable (sound.named l n hn)
      have lookups m : made.lookup m =
          if m = l then none else if IsAbove m l then some .directory else t.lookup m := by
        rw [changed]
        split_ifs with way same same
        · exact absurd same way.2
        · rfl
        · rw [same, absent]
        · rfl
      exact isSound_of_changed sound (by simp [absent]) (by simp) named lookups

/-- Nothing changes but what is written and the directories above it, which were no files. -/
theorem lookup_cases (h : Creates t l content force outcome) (m : Location) :
    outcome.1.lookup m = t.lookup m ∨
      (m = l ∧ outcome.1.lookup m = some (.file content) ∧ t.lookup m ≠ some .directory ∧
        (t.lookup m = none ∨ force = true) ∧ IsNameable m ∧ ¬t.IsBlocked m) ∨
      (IsAbove m l ∧ outcome.1.lookup m = some .directory ∧
        ∀ x, t.lookup m ≠ some (.file x)) := by
  have clear (unblocked : ¬t.IsBlocked l) (above : IsAbove m l) (x : String) :
      t.lookup m ≠ some (.file x) := fun file => unblocked ⟨m, x, above, file⟩
  cases h with
  | skipped there unforced => exact .inl rfl
  | refused fault obstacle => exact .inl rfl
  | written written nameable unblocked free allowed changed =>
    have here := changed m
    split_ifs at here with same above
    · subst same
      exact .inr (.inl ⟨rfl, here, free, allowed, nameable, unblocked⟩)
    · exact .inr (.inr ⟨above, here, clear unblocked above⟩)
    · exact .inl here
  | unnameable made unnameable changed =>
    obtain rfl | ⟨-, unblocked, changed⟩ := changed
    · exact .inl rfl
    · have here := changed m
      split_ifs at here with above
      · exact .inr (.inr ⟨above, here, clear unblocked above⟩)
      · exact .inl here

theorem of_written (h : Creates t l content force outcome) {creation : Creation}
    (done : outcome.2 = .ok creation) (written : creation.isWritten = true) :
    outcome.1.lookup l = some (.file content) ∧ (t.lookup l = none ∨ force = true) := by
  cases h with
  | skipped there unforced =>
    cases done
    cases written
  | written written nameable unblocked free allowed changed =>
    exact ⟨by rw [changed, if_pos rfl], allowed⟩
  | refused fault obstacle => cases done
  | unnameable made unnameable changed => cases done

theorem directory_kept (h : Creates t l content force outcome) {m : Location}
    (there : t.lookup m = some .directory) : outcome.1.lookup m = some .directory := by
  obtain same | ⟨-, -, free, -⟩ | ⟨-, here, -⟩ := h.lookup_cases m
  · rw [same, there]
  · exact absurd there free
  · exact here

theorem file_kept (h : Creates t l content force outcome) {m : Location} {x : String}
    (there : t.lookup m = some (.file x)) (unforced : l = m → force = false) :
    outcome.1.lookup m = some (.file x) := by
  obtain same | ⟨rfl, -, -, allowed, -⟩ | ⟨-, -, clear⟩ := h.lookup_cases m
  · rw [same, there]
  · simp [there, unforced rfl] at allowed
  · exact absurd there (clear x)

/-- What is a file once stays one. -/
theorem exists_file (h : Creates t l content force outcome) {m : Location} {x : String}
    (there : t.lookup m = some (.file x)) : ∃ y, outcome.1.lookup m = some (.file y) := by
  obtain same | ⟨-, here, -⟩ | ⟨-, -, clear⟩ := h.lookup_cases m
  · exact ⟨x, by rw [same, there]⟩
  · exact ⟨content, here⟩
  · exact absurd there (clear x)

/-- Where the content of a file comes from. -/
theorem file_origin (h : Creates t l content force outcome) (sound : t.IsSound) {m : Location}
    {x : String} (there : outcome.1.lookup m = some (.file x)) :
    (t.lookup m = some (.file x) ∧ (l = m → force = false)) ∨
      (l = m ∧ content = x ∧ (t.lookup m = none ∨ force = true) ∧ IsNameable m ∧
        ¬t.IsBlocked m) := by
  cases h with
  | skipped _ unforced => exact .inl ⟨there, fun _ => unforced⟩
  | refused fault obstacle =>
    refine .inl ⟨there, ?_⟩
    rintro rfl
    obtain blocked | ⟨directory, -⟩ := obstacle
    · exact absurd blocked (sound.not_isBlocked there)
    · rw [there] at directory
      cases directory
  | written written nameable unblocked free allowed changed =>
    have here := changed m
    rw [there] at here
    split_ifs at here with same above
    · subst same
      cases here
      exact .inr ⟨rfl, rfl, allowed, nameable, unblocked⟩
    · cases here
    · exact .inl ⟨here.symm, fun same' => absurd same'.symm same⟩
  | unnameable made unnameable changed =>
    have kept : t.lookup m = some (.file x) := by
      obtain rfl | ⟨-, -, changed⟩ := changed
      · exact there
      · have here := changed m
        rw [there] at here
        split_ifs at here
        · cases here
        · exact here.symm
    refine .inl ⟨kept, ?_⟩
    rintro rfl
    exact absurd (sound.named l _ kept) unnameable

/-! ### Calls that come later -/

theorem isBlocked (h : Creates t l content force outcome) {m : Location} (blocked : t.IsBlocked m) :
    outcome.1.IsBlocked m := by
  obtain ⟨k, x, above, file⟩ := blocked
  obtain ⟨y, hy⟩ := h.exists_file file
  exact ⟨k, y, above, hy⟩

theorem isDecided_here (h : Creates t l content force outcome) : outcome.1.IsDecided l := by
  cases h with
  | skipped there unforced => exact .inl there
  | refused fault obstacle =>
    obtain blocked | ⟨directory, -⟩ := obstacle
    · exact .inr (.inl blocked)
    · exact .inl (by simp [directory])
  | written written nameable unblocked free allowed changed =>
    exact .inl (by simp [changed l])
  | unnameable made unnameable changed => exact .inr (.inr unnameable)

theorem isDecided (h : Creates t l content force outcome) {m : Location} (decided : t.IsDecided m) :
    outcome.1.IsDecided m := by
  obtain there | blocked | unnameable := decided
  · left
    obtain ⟨n, hn⟩ := Option.ne_none_iff_exists'.mp there
    cases n with
    | file x =>
      obtain ⟨y, hy⟩ := h.exists_file hn
      simp [hy]
    | directory => simp [h.directory_kept hn]
  · exact .inr (.inl (h.isBlocked blocked))
  · exact .inr (.inr unnameable)

end Creates

end AnchorHarness.Workspace
