import AnchorHarness.Proofs.Fallible
import AnchorHarness.Workspace.Settings
import Mathlib.Data.List.TakeWhile
import Mathlib.Logic.Function.Iterate
import Mathlib.Tactic.SplitIfs

/-!
# Variables from a file

The settings of a file are told line by line, without the environment that they are put into: a file
gives a variable the value of the first line that sets it. So the environment after the settings are
loaded is told at once. A variable that was set keeps its value, and any other has the value that
the nearest file gives it.
-/

namespace AnchorHarness.Workspace

/-! ### The nearest file -/

/-- The file with settings some directories above the one that a path leads to. -/
def settingsPath (start : Path) (above : Nat) : Path := (Path.parent^[above] start).child settingsName

/-- So many directories above the first one is the nearest file with settings. No more than four are
looked at. -/
structure IsNearest (t : FileTree) (here : Location) (start : Path) (above : Nat) : Prop where
  inside : above ≤ 4
  there : t.contains here (settingsPath start above) = true
  first : ∀ k < above, t.contains here (settingsPath start k) = false

/-- The trees have the same files with settings, as far as the nearest one. -/
def SameSettings (t other : FileTree) (here : Location) (start : Path) : Prop :=
  ∀ above ≤ 4, (∀ k < above, t.contains here (settingsPath start k) = false) →
    other.contains here (settingsPath start above) = t.contains here (settingsPath start above) ∧
      (t.contains here (settingsPath start above) = true →
        readText other here (settingsPath start above) =
          readText t here (settingsPath start above))

section

variable {t other : FileTree} {here : Location} {start : Path}

theorem settingsFile?_eq :
    settingsFile? t here start =
      ((List.range 5).find? fun above => t.contains here (settingsPath start above)).map
        (settingsPath start) := by
  have same : (upwards searchDepth start).map (fun d => d.child settingsName) =
      (List.range 5).map (settingsPath start) := rfl
  rw [settingsFile?, same, List.find?_map]
  rfl

theorem IsNearest.settingsFile? {above : Nat} (h : IsNearest t here start above) :
    settingsFile? t here start = some (settingsPath start above) := by
  have found : ((List.range 5).find? fun k => t.contains here (settingsPath start k)) =
      some above := by
    rw [List.find?_range_eq_some]
    refine ⟨h.there, List.mem_range.mpr (Nat.lt_succ_of_le h.inside), fun k hk => ?_⟩
    rw [h.first k hk]
    rfl
  rw [settingsFile?_eq, found]
  rfl

theorem settingsFile?_eq_none
    (missing : ∀ above ≤ 4, t.contains here (settingsPath start above) = false) :
    settingsFile? t here start = none := by
  have absent : ((List.range 5).find? fun k => t.contains here (settingsPath start k)) = none := by
    rw [List.find?_eq_none]
    intro k hk
    rw [missing k (Nat.le_of_lt_succ (List.mem_range.mp hk))]
    exact Bool.false_ne_true
  rw [settingsFile?_eq, absent]
  rfl

theorem nearest_or_none (t : FileTree) (here : Location) (start : Path) :
    (∃ above, IsNearest t here start above) ∨
      ∀ above ≤ 4, t.contains here (settingsPath start above) = false := by
  cases search : (List.range 5).find? fun k => t.contains here (settingsPath start k) with
  | some above =>
    obtain ⟨there, inside, first⟩ := List.find?_range_eq_some.mp search
    refine .inl ⟨above, Nat.le_of_lt_succ (List.mem_range.mp inside), there, fun k hk => ?_⟩
    simpa using first k hk
  | none =>
    refine .inr fun above inside => ?_
    have absent := List.find?_eq_none.mp search above (List.mem_range.mpr (Nat.lt_succ_of_le inside))
    simpa using absent

theorem IsNearest.unique {m n : Nat} (h : IsNearest t here start m)
    (h' : IsNearest t here start n) : m = n := by
  by_contra other
  rcases Nat.lt_or_gt_of_ne other with lt | lt
  · exact absurd h.there (by simp [h'.first m lt])
  · exact absurd h'.there (by simp [h.first n lt])

theorem SameSettings.isNearest {above : Nat} (same : SameSettings t other here start)
    (h : IsNearest t here start above) : IsNearest other here start above := by
  refine ⟨h.inside, ?_, fun k hk => ?_⟩
  · rw [(same above h.inside h.first).1, h.there]
  · have nearer : ∀ j < k, t.contains here (settingsPath start j) = false :=
      fun j hj => h.first j (Nat.lt_trans hj hk)
    rw [(same k (Nat.le_trans (Nat.le_of_lt hk) h.inside) nearer).1, h.first k hk]

end

/-! ### Lines -/

/-- The line, without the blanks at its ends, does not begin with a hash sign, and the name and the
value stand around its first equals sign, without the blanks at theirs. -/
def Sets (line : List Char) (name value : String) : Prop :=
  ∃ front behind, Text.trim line = front ++ '=' :: behind ∧ '=' ∉ front ∧
    (Text.trim line).head? ≠ some '#' ∧ String.ofList (Text.trim front) = name ∧
      String.ofList (Text.trim behind) = value

/-- The first line of a text that sets the name sets it to the value. -/
def FirstSets (content name value : String) : Prop :=
  ∃ before line after, Text.lines content = before ++ line :: after ∧ Sets line name value ∧
    ∀ other ∈ before, ∀ v, ¬Sets other name v

theorem cutFirst_append_cons {sep : Char} {front : List Char} (absent : sep ∉ front)
    (behind : List Char) : Text.cutFirst sep (front ++ sep :: behind) = some (front, behind) := by
  induction front with
  | nil => rw [List.nil_append, Text.cutFirst, if_pos rfl]
  | cons c front ih =>
    simp only [List.mem_cons, not_or] at absent
    rw [List.cons_append, Text.cutFirst, if_neg (Ne.symm absent.1), ih absent.2]
    rfl

theorem cutFirst_eq_some {sep : Char} {cs front behind : List Char} :
    Text.cutFirst sep cs = some (front, behind) ↔ cs = front ++ sep :: behind ∧ sep ∉ front := by
  constructor
  · intro cut
    obtain ⟨-, rfl, -⟩ := (Text.cutFirst_eq_some_iff ..).mp cut
    refine ⟨(Text.cutFirst_append cut).symm, fun there => ?_⟩
    simpa using List.mem_takeWhile_imp there
  · rintro ⟨rfl, absent⟩
    exact cutFirst_append_cons absent behind

theorem settingOfLine_eq_some {line : List Char} {name value : String} :
    settingOfLine line = some (name, value) ↔ Sets line name value := by
  unfold settingOfLine Sets
  split
  · next rest hash => simp [hash]
  · next other =>
    have unmarked : (Text.trim line).head? ≠ some '#' := by
      intro marked
      cases text : Text.trim line with
      | nil => simp [text] at marked
      | cons c rest =>
        rw [text] at marked
        cases marked
        exact other rest text
    simp [Option.map_eq_some_iff, cutFirst_eq_some, unmarked, and_assoc]

theorem exists_split_cons {α : Type} {P Q : α → Prop} {x : α} {xs : List α} :
    (∃ before a after, x :: xs = before ++ a :: after ∧ P a ∧ ∀ b ∈ before, Q b) ↔
      P x ∨ Q x ∧ ∃ before a after, xs = before ++ a :: after ∧ P a ∧ ∀ b ∈ before, Q b := by
  constructor
  · rintro ⟨before, a, after, split, here, passed⟩
    cases before with
    | nil =>
      cases split
      exact .inl here
    | cons y before =>
      cases split
      exact .inr ⟨passed x (List.mem_cons_self ..), before, a, after, rfl, here,
        fun b hb => passed b (List.mem_cons_of_mem x hb)⟩
  · rintro (here | ⟨first, before, a, after, rfl, here, passed⟩)
    · exact ⟨[], x, xs, rfl, here, by simp⟩
    · exact ⟨x :: before, a, after, rfl, here, List.forall_mem_cons.mpr ⟨first, passed⟩⟩

theorem find?_settingsOf {content name value : String} :
    Table.find? name (settingsOf content) = some value ↔ FirstSets content name value := by
  unfold settingsOf FirstSets
  induction Text.lines content with
  | nil => simp [Table.find?]
  | cons line lines ih =>
    rw [exists_split_cons, ← ih]
    simp only [← settingOfLine_eq_some]
    cases setting : settingOfLine line with
    | none => simp [List.filterMap_cons_none setting]
    | some p =>
      obtain ⟨n, v⟩ := p
      rw [List.filterMap_cons_some setting, Table.find?]
      by_cases same : n = name
      · simp [same]
      · simp [same]

/-! ### Taking over -/

/-- The environment accepts a variable of this name with this value. -/
def Adoptable (name value : String) : Prop :=
  name ≠ "" ∧ '\x00' ∉ name.toList ∧ '\x00' ∉ value.toList

theorem adoptable_iff {name value : String} :
    Adoptable name value ↔
      ¬(name.toList.contains '\x00' || value.toList.contains '\x00') = true ∧
        ¬name.isEmpty = true := by
  simp [Adoptable, and_comm]

theorem adopt_eq_ok_iff {env after : Environment} {name value : String} :
    adopt env (name, value) = .ok after ↔
      (Table.has name env = true ∧ env = after) ∨
        Table.find? name env = none ∧ Adoptable name value ∧ Table.put name value env = after := by
  have unset_iff : Table.find? name env = none ↔ ¬Table.has name env = true := by simp [Table.has]
  have told : adopt env (name, value) =
      if Table.has name env then .ok env
      else if name.toList.contains '\x00' || value.toList.contains '\x00' then
        .error .nulCharacter
      else if name.isEmpty then .error .emptyName
      else .ok (Table.put name value env) := rfl
  rw [told, unset_iff, adoptable_iff]
  split_ifs with set nul empty
  · simp [set]
  · simp only [set, nul, not_true_eq_false, false_and, and_false, or_self, reduceCtorEq]
  · simp only [set, nul, empty, not_true_eq_false, false_and, and_false, or_self, reduceCtorEq]
  · simp only [set, nul, empty, Bool.false_eq_true, not_false_eq_true, false_and, true_and,
      false_or, Except.ok.injEq]

theorem adoptAll_cons (env : Environment) (setting : String × String)
    (settings : List (String × String)) :
    adoptAll env (setting :: settings) =
      match adopt env setting with
      | .ok env => adoptAll env settings
      | .error e => (env, .error e) := rfl

/-- A variable that was set keeps its value. -/
theorem find?_adoptAll_of_some {env : Environment} {name value : String}
    (set : Table.find? name env = some value) (settings : List (String × String)) :
    Table.find? name (adoptAll env settings).1 = some value := by
  induction settings generalizing env with
  | nil => exact set
  | cons setting settings ih =>
    rw [adoptAll_cons]
    cases step : adopt env setting with
    | error e => exact set
    | ok after =>
      obtain ⟨-, rfl⟩ | ⟨unset, -, rfl⟩ := adopt_eq_ok_iff.mp step
      · exact ih set
      · have other : setting.1 ≠ name := by
          rintro rfl
          rw [unset] at set
          cases set
        exact ih (by rw [Table.find?_put, if_neg other, set])

theorem find?_adoptAll {env : Environment} {settings : List (String × String)}
    (fine : (adoptAll env settings).2 = .ok ()) (name : String) :
    Table.find? name (adoptAll env settings).1 =
      (Table.find? name env).or (Table.find? name settings) := by
  induction settings generalizing env with
  | nil => simp [adoptAll, Table.find?]
  | cons setting settings ih =>
    obtain ⟨n, v⟩ := setting
    rw [adoptAll_cons] at fine ⊢
    cases step : adopt env (n, v) with
    | error e =>
      rw [step] at fine
      cases fine
    | ok after =>
      rw [step] at fine
      refine (ih fine).trans ?_
      rw [Table.find?]
      obtain ⟨set, rfl⟩ | ⟨unset, -, rfl⟩ := adopt_eq_ok_iff.mp step
      · by_cases same : n = name
        · obtain ⟨old, there⟩ := Option.isSome_iff_exists.mp set
          rw [← same, there, Option.some_or, Option.some_or]
        · rw [if_neg same]
      · rw [Table.find?_put]
        by_cases same : n = name
        · rw [if_pos same, if_pos same, ← same, unset, Option.some_or, Option.none_or]
        · rw [if_neg same, if_neg same]

/-- Only the first value of a variable that is not set can be at fault. -/
theorem adoptAll_eq_ok_iff {env : Environment} {settings : List (String × String)} :
    (adoptAll env settings).2 = .ok () ↔
      ∀ name value, Table.find? name env = none → Table.find? name settings = some value →
        Adoptable name value := by
  induction settings generalizing env with
  | nil => simp [adoptAll, Table.find?]
  | cons setting settings ih =>
    obtain ⟨n, v⟩ := setting
    rw [adoptAll_cons]
    cases step : adopt env (n, v) with
    | error e =>
      simp only [reduceCtorEq, false_iff]
      intro fine
      by_cases set : Table.has n env = true
      · have kept : adopt env (n, v) = .ok env := adopt_eq_ok_iff.mpr (.inl ⟨set, rfl⟩)
        rw [step] at kept
        cases kept
      · have unset : Table.find? n env = none := by simpa [Table.has] using set
        have put := adopt_eq_ok_iff.mpr
          (.inr ⟨unset, fine n v unset (by rw [Table.find?, if_pos rfl]), rfl⟩)
        rw [step] at put
        cases put
    | ok after =>
      simp only [ih, Table.find?]
      obtain ⟨set, rfl⟩ | ⟨unset, adoptable, rfl⟩ := adopt_eq_ok_iff.mp step
      · refine forall₃_congr fun name value unset => ?_
        have other : n ≠ name := by
          rintro rfl
          simp [Table.has, unset] at set
        rw [if_neg other]
      · constructor
        · intro fine name value unset' found
          by_cases same : n = name
          · rw [if_pos same] at found
            cases found
            exact same ▸ adoptable
          · rw [if_neg same] at found
            exact fine name value (by rw [Table.find?_put, if_neg same, unset']) found
        · intro fine name value unset' found
          rw [Table.find?_put] at unset'
          by_cases same : n = name
          · rw [if_pos same] at unset'
            cases unset'
          · rw [if_neg same] at unset'
            exact fine name value unset' (by rw [if_neg same, found])

theorem adoptAll_of_has {env : Environment} {settings : List (String × String)}
    (set : ∀ p ∈ settings, Table.has p.1 env = true) : adoptAll env settings = (env, .ok ()) := by
  induction settings with
  | nil => rfl
  | cons setting settings ih =>
    have kept : adopt env setting = .ok env :=
      adopt_eq_ok_iff.mpr (.inl ⟨set setting (List.mem_cons_self ..), rfl⟩)
    rw [adoptAll_cons, kept]
    exact ih fun p hp => set p (List.mem_cons_of_mem setting hp)

theorem has_of_mem {p : String × String} {t : Table String String} (there : p ∈ t) :
    Table.has p.1 t = true := by
  induction t with
  | nil => cases there
  | cons q rest ih =>
    rw [Table.has, Table.find?]
    split_ifs with same
    · rfl
    · rcases List.mem_cons.mp there with rfl | there
      · exact absurd rfl same
      · exact ih there

/-- Once taken over, the settings change nothing. -/
theorem adoptAll_again {env : Environment} {settings : List (String × String)}
    (fine : (adoptAll env settings).2 = .ok ()) :
    adoptAll (adoptAll env settings).1 settings = ((adoptAll env settings).1, .ok ()) := by
  apply adoptAll_of_has
  intro p hp
  have there := has_of_mem hp
  rw [Table.has] at there ⊢
  rw [find?_adoptAll fine, Option.isSome_or, there, Bool.or_true]

/-! ### Loading -/

/-- The nearest file gives the variable the value. -/
def IsGiven (t : FileTree) (here : Location) (start : Path) (name value : String) : Prop :=
  ∃ above content, IsNearest t here start above ∧
    readText t here (settingsPath start above) = .ok content ∧ FirstSets content name value

section

variable {t other : FileTree} {here : Location} {start : Path}

theorem loadSettings_of_none
    (missing : ∀ above ≤ 4, t.contains here (settingsPath start above) = false)
    (env : Environment) : loadSettings t here start env = (env, .ok ()) := by
  rw [loadSettings, settingsFile?_eq_none missing]

theorem IsNearest.loadSettings_eq {above : Nat} (nearest : IsNearest t here start above)
    (env : Environment) :
    loadSettings t here start env =
      match readText t here (settingsPath start above) with
      | .error e => (env, .error (.file e))
      | .ok content => ((adoptAll env (settingsOf content)).1,
          (adoptAll env (settingsOf content)).2.mapError .setting) := by
  cases text : readText t here (settingsPath start above) with
  | error e => simp only [loadSettings, nearest.settingsFile?, text]
  | ok content => simp only [loadSettings, nearest.settingsFile?, text]

/-- No other file with settings than the nearest is looked at. -/
theorem loadSettings_congr (same : SameSettings t other here start) (env : Environment) :
    loadSettings other here start env = loadSettings t here start env := by
  obtain ⟨above, nearest⟩ | missing := nearest_or_none t here start
  · rw [nearest.loadSettings_eq, (same.isNearest nearest).loadSettings_eq,
      (same above nearest.inside nearest.first).2 nearest.there]
  · have absent : ∀ above ≤ 4, other.contains here (settingsPath start above) = false := by
      intro above inside
      have nearer : ∀ k < above, t.contains here (settingsPath start k) = false :=
        fun k hk => missing k (Nat.le_trans (Nat.le_of_lt hk) inside)
      rw [(same above inside nearer).1, missing above inside]
    rw [loadSettings_of_none missing, loadSettings_of_none absent]

theorem find?_loadSettings_of_some {env : Environment} {name value : String}
    (set : Table.find? name env = some value) :
    Table.find? name (loadSettings t here start env).1 = some value := by
  obtain ⟨above, nearest⟩ | missing := nearest_or_none t here start
  · rw [nearest.loadSettings_eq]
    cases readText t here (settingsPath start above) with
    | error e => exact set
    | ok content => exact find?_adoptAll_of_some set (settingsOf content)
  · rw [loadSettings_of_none missing]
    exact set

/-- Either there are no settings, or those of the nearest file are taken over. -/
theorem loadSettings_eq_ok {env loaded : Environment} :
    loadSettings t here start env = (loaded, .ok ()) ↔
      ((∀ above ≤ 4, t.contains here (settingsPath start above) = false) ∧ env = loaded) ∨
        ∃ above content, IsNearest t here start above ∧
          readText t here (settingsPath start above) = .ok content ∧
            adoptAll env (settingsOf content) = (loaded, .ok ()) := by
  constructor
  · intro h
    obtain ⟨above, nearest⟩ | missing := nearest_or_none t here start
    · rw [nearest.loadSettings_eq] at h
      cases read : readText t here (settingsPath start above) with
      | error e =>
        rw [read] at h
        cases h
      | ok content =>
        rw [read] at h
        obtain ⟨rfl, fine⟩ := Prod.mk.inj h
        exact .inr ⟨above, content, nearest, read,
          Prod.ext rfl (Fallible.mapError_eq_ok.mp fine)⟩
    · rw [loadSettings_of_none missing] at h
      exact .inl ⟨missing, (Prod.mk.inj h).1⟩
  · rintro (⟨missing, rfl⟩ | ⟨above, content, nearest, read, taken⟩)
    · exact loadSettings_of_none missing env
    · rw [nearest.loadSettings_eq, read]
      simp only [taken, Except.mapError]

theorem not_isGiven (missing : ∀ above ≤ 4, t.contains here (settingsPath start above) = false)
    (name value : String) : ¬IsGiven t here start name value := by
  rintro ⟨above, content, nearest, -, -⟩
  have there := nearest.there
  rw [missing above nearest.inside] at there
  cases there

theorem IsNearest.isGiven_iff {above : Nat} {content : String}
    (nearest : IsNearest t here start above)
    (read : readText t here (settingsPath start above) = .ok content) (name value : String) :
    IsGiven t here start name value ↔ FirstSets content name value := by
  constructor
  · rintro ⟨k, text, nearest', read', first⟩
    rw [nearest'.unique nearest, read] at read'
    cases read'
    exact first
  · intro first
    exact ⟨above, content, nearest, read, first⟩

section

variable {env loaded : Environment} (fine : loadSettings t here start env = (loaded, .ok ()))

include fine

theorem find?_loaded (name value : String) :
    Table.find? name loaded = some value ↔
      Table.find? name env = some value ∨
        Table.find? name env = none ∧ IsGiven t here start name value := by
  obtain ⟨missing, rfl⟩ | ⟨above, content, nearest, read, taken⟩ := loadSettings_eq_ok.mp fine
  · simp [not_isGiven missing]
  · have told := find?_adoptAll (congrArg Prod.snd taken) name
    rw [taken] at told
    rw [told, Option.or_eq_some_iff, find?_settingsOf, nearest.isGiven_iff read]

theorem loadSettings_again : loadSettings t here start loaded = (loaded, .ok ()) := by
  rw [loadSettings_eq_ok]
  obtain ⟨missing, rfl⟩ | ⟨above, content, nearest, read, taken⟩ := loadSettings_eq_ok.mp fine
  · exact .inl ⟨missing, rfl⟩
  · refine .inr ⟨above, content, nearest, read, ?_⟩
    have again := adoptAll_again (congrArg Prod.snd taken)
    rwa [taken] at again

end

/-- Loading is interrupted just if the nearest file cannot be read, or gives a variable that is not
set a value that the environment does not accept. -/
theorem exists_loaded_iff {env : Environment} :
    (∃ loaded, loadSettings t here start env = (loaded, .ok ())) ↔
      ∀ above, IsNearest t here start above →
        (∃ content, readText t here (settingsPath start above) = .ok content) ∧
          ∀ name value, Table.find? name env = none → IsGiven t here start name value →
            Adoptable name value := by
  constructor
  · rintro ⟨loaded, fine⟩ above nearest
    obtain ⟨missing, rfl⟩ | ⟨k, content, nearest', read, taken⟩ := loadSettings_eq_ok.mp fine
    · have there := nearest.there
      rw [missing above nearest.inside] at there
      cases there
    · obtain rfl := nearest'.unique nearest
      refine ⟨⟨content, read⟩, fun name value unset given => ?_⟩
      rw [nearest.isGiven_iff read, ← find?_settingsOf] at given
      exact adoptAll_eq_ok_iff.mp (congrArg Prod.snd taken) name value unset given
  · intro fine
    obtain ⟨above, nearest⟩ | missing := nearest_or_none t here start
    · obtain ⟨⟨content, read⟩, adoptable⟩ := fine above nearest
      have taken : (adoptAll env (settingsOf content)).2 = .ok () := by
        rw [adoptAll_eq_ok_iff]
        intro name value unset found
        rw [find?_settingsOf, ← nearest.isGiven_iff read] at found
        exact adoptable name value unset found
      exact ⟨_, loadSettings_eq_ok.mpr (.inr ⟨above, content, nearest, read, Prod.ext rfl taken⟩)⟩
    · exact ⟨env, loadSettings_of_none missing env⟩

end

end AnchorHarness.Workspace
