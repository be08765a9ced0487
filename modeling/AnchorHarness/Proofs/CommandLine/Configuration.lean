import AnchorHarness.Proofs.CommandLine.Outcome
import AnchorHarness.Proofs.Workspace.Variables

/-!
# Where a setting comes from

A setting of the generated code is what the environment says, or the nearest file with settings if
the environment says nothing. An empty value stands for the usual one, and an empty variable also
hides what the file says.
-/

namespace AnchorHarness.CommandLine

open SessionM (loadConfig)
open Workspace (Environment FileTree Path IsGiven IsNearest Adoptable SameSettings loadSettings
  settingsPath readText configOf overridden variableStart)

/-- The settings, each with the end of its variable's name. -/
def configFields : List (String × (Config → String)) :=
  [("CLIENT_CRATE", Config.clientCrate),
    ("PROGRAM_ID_CONST", Config.programIdConst),
    ("SNAPSHOTS_MODULE", Config.snapshotsModule),
    ("SNAPSHOTS_FILE", Config.snapshotsFile),
    ("FUZZ_INSTRUCTIONS_FILE", Config.fuzzInstructionsFile)]

theorem configFields_configOf (env : Environment) :
    ∀ f ∈ configFields, f.2 (configOf env) = overridden env f.1 (f.2 .standard) := by
  simp [configFields, configOf]

theorem overridden_of_some {env : Environment} {name value : String}
    (set : Table.find? (variableStart ++ name) env = some value) (standard : String) :
    overridden env name standard = if value = "" then standard else value := by
  simp [overridden, set]

theorem overridden_of_none {env : Environment} {name : String}
    (unset : Table.find? (variableStart ++ name) env = none) (standard : String) :
    overridden env name standard = standard := by
  simp [overridden, unset]

/-- The working directory of a session. -/
def workingPath (s : Session) : Path := ⟨"/", s.directory⟩

theorem perform_loadConfig_of_loaded {s : Session} {loaded : Environment}
    (fine : loadSettings s.files s.directory (workingPath s) s.environment = (loaded, .ok ())) :
    loadConfig.perform s = (.ok (configOf loaded), { s with environment := loaded }) := by
  unfold workingPath at fine
  rw [perform_loadConfig, settingsOf, fine]

/-- Loading the settings keeps every variable that is set, and it is interrupted just if the nearest
file cannot be read or says what the environment does not accept. Else every other variable has
the value that the nearest file gives it, no other file matters, loading again changes nothing, and
each setting comes from the environment, from the file, or from the standard. -/
theorem configuration_precedence (s : Session) :
    (∀ name value, Table.find? name s.environment = some value →
      Table.find? name (loadSettings s.files s.directory (workingPath s) s.environment).1 =
        some value) ∧
    ((∃ loaded, loadSettings s.files s.directory (workingPath s) s.environment =
        (loaded, .ok ())) ↔
      ∀ above, IsNearest s.files s.directory (workingPath s) above →
        (∃ content, readText s.files s.directory (settingsPath (workingPath s) above) =
          .ok content) ∧
          ∀ name value, Table.find? name s.environment = none →
            IsGiven s.files s.directory (workingPath s) name value → Adoptable name value) ∧
    (∀ other, SameSettings s.files other s.directory (workingPath s) → ∀ environment,
      loadSettings other s.directory (workingPath s) environment =
        loadSettings s.files s.directory (workingPath s) environment) ∧
    ∀ loaded, loadSettings s.files s.directory (workingPath s) s.environment = (loaded, .ok ()) →
      (∀ name value, Table.find? name s.environment = none →
        (Table.find? name loaded = some value ↔
          IsGiven s.files s.directory (workingPath s) name value)) ∧
      loadSettings s.files s.directory (workingPath s) loaded = (loaded, .ok ()) ∧
      loadConfig.perform s = (.ok (configOf loaded), { s with environment := loaded }) ∧
      loadConfig.perform { s with environment := loaded } =
        (.ok (configOf loaded), { s with environment := loaded }) ∧
      ∀ f ∈ configFields,
        (∀ value, Table.find? (variableStart ++ f.1) s.environment = some value → value ≠ "" →
          f.2 (configOf loaded) = value) ∧
        (Table.find? (variableStart ++ f.1) s.environment = some "" →
          f.2 (configOf loaded) = f.2 .standard) ∧
        (Table.find? (variableStart ++ f.1) s.environment = none → ∀ value,
          IsGiven s.files s.directory (workingPath s) (variableStart ++ f.1) value → value ≠ "" →
            f.2 (configOf loaded) = value) ∧
        (Table.find? (variableStart ++ f.1) s.environment = none →
          (∀ value, IsGiven s.files s.directory (workingPath s) (variableStart ++ f.1) value →
            value = "") → f.2 (configOf loaded) = f.2 .standard) := by
  refine ⟨fun name value set => Workspace.find?_loadSettings_of_some set,
    Workspace.exists_loaded_iff, fun other same => Workspace.loadSettings_congr same, ?_⟩
  intro loaded fine
  have told := Workspace.find?_loaded fine
  have again := Workspace.loadSettings_again fine
  refine ⟨?_, again, perform_loadConfig_of_loaded fine, perform_loadConfig_of_loaded again, ?_⟩
  · intro name value unset
    simp [told, unset]
  · intro f hf
    rw [configFields_configOf loaded f hf]
    refine ⟨?_, ?_, ?_, ?_⟩
    · intro value set filled
      rw [overridden_of_some ((told _ _).mpr (.inl set)), if_neg filled]
    · intro set
      rw [overridden_of_some ((told _ _).mpr (.inl set)), if_pos rfl]
    · intro unset value given filled
      rw [overridden_of_some ((told _ _).mpr (.inr ⟨unset, given⟩)), if_neg filled]
    · intro unset empty
      cases found : Table.find? (variableStart ++ f.1) loaded with
      | none => exact overridden_of_none found _
      | some value =>
        obtain set | ⟨-, given⟩ := (told _ _).mp found
        · rw [unset] at set
          cases set
        · rw [overridden_of_some found, if_pos (empty value given)]

/-! ### Settings in a directory above -/

/-- A working directory below one that has settings, and this below another one. -/
def nestedSession : Session :=
  { files := ⟨[([".env"], .file "FUZZSCAFFOLD_PROGRAM_ID_CONST=FAR"),
      (["tests"], .directory),
      (["tests", ".env"], .file ("# near\nFUZZSCAFFOLD_CLIENT_CRATE = a\r\n" ++
        "FUZZSCAFFOLD_CLIENT_CRATE=b\nFUZZSCAFFOLD_SNAPSHOTS_FILE=c")),
      (["tests", "fuzz"], .directory)]⟩
    directory := ["tests", "fuzz"]
    environment := [("FUZZSCAFFOLD_SNAPSHOTS_FILE", "")]
    events := [] }

def nestedEnvironment : Environment :=
  [("FUZZSCAFFOLD_SNAPSHOTS_FILE", ""), ("FUZZSCAFFOLD_CLIENT_CRATE", "a")]

theorem loadSettings_nestedSession :
    loadSettings nestedSession.files nestedSession.directory (workingPath nestedSession)
      nestedSession.environment = (nestedEnvironment, .ok ()) := by
  decide +kernel

/-- The first line counts, an empty variable hides the file, and the far file is not read. -/
theorem configuration_precedence_nested :
    loadSettings nestedSession.files nestedSession.directory (workingPath nestedSession)
        nestedSession.environment = (nestedEnvironment, .ok ()) ∧
      IsGiven nestedSession.files nestedSession.directory (workingPath nestedSession)
        "FUZZSCAFFOLD_CLIENT_CRATE" "a" ∧
      (configOf nestedEnvironment).clientCrate = "a" ∧
      (configOf nestedEnvironment).snapshotsFile = "accounts_snapshots.rs" ∧
      (configOf nestedEnvironment).programIdConst = "PROGRAM_ID" ∧
      loadConfig.perform { nestedSession with environment := nestedEnvironment } =
        (.ok (configOf nestedEnvironment),
          { nestedSession with environment := nestedEnvironment }) := by
  obtain ⟨-, -, -, loaded⟩ := configuration_precedence nestedSession
  obtain ⟨new, -, -, again, fields⟩ := loaded nestedEnvironment loadSettings_nestedSession
  have crateUnset : Table.find? "FUZZSCAFFOLD_CLIENT_CRATE" nestedSession.environment = none := by
    decide
  have constUnset :
      Table.find? "FUZZSCAFFOLD_PROGRAM_ID_CONST" nestedSession.environment = none := by
    decide
  have given := (new _ "a" crateUnset).mp (by decide)
  have crate := (fields ("CLIENT_CRATE", Config.clientCrate) (by simp [configFields])).2.2.1
    crateUnset "a" given (by decide)
  have file := (fields ("SNAPSHOTS_FILE", Config.snapshotsFile) (by simp [configFields])).2.1
    (by decide)
  have ungiven : ∀ value, IsGiven nestedSession.files nestedSession.directory
      (workingPath nestedSession) "FUZZSCAFFOLD_PROGRAM_ID_CONST" value → value = "" := by
    intro value given
    have absent : Table.find? "FUZZSCAFFOLD_PROGRAM_ID_CONST" nestedEnvironment = none := by decide
    have found := (new _ value constUnset).mpr given
    rw [absent] at found
    cases found
  have const := (fields ("PROGRAM_ID_CONST", Config.programIdConst) (by simp [configFields])).2.2.2
    constUnset ungiven
  exact ⟨loadSettings_nestedSession, given, crate, file, const, again⟩

end AnchorHarness.CommandLine
