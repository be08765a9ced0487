import AnchorHarness.Config
import AnchorHarness.Text.Blank
import AnchorHarness.Workspace.Storing

/-!
# Settings

The settings of the generated code can be overridden by variables of the environment. Variables that
are not set may come from the file `.env` of the working directory, or of the nearest of the four
directories above it that has one. What is set in the environment is never changed.
-/

namespace AnchorHarness.Workspace

abbrev Environment := Table String String

/-- Why a variable cannot be set. -/
inductive SettingFault where
  | emptyName
  | nulCharacter
  deriving DecidableEq, Repr

def SettingFault.message : SettingFault → String
  | .emptyName => "[Errno 22] Invalid argument"
  | .nulCharacter => "embedded null byte"

/-! ### The file -/

def settingsName : String := ".env"

def searchDepth : Nat := 5

/-- The setting in a line: a name and a value around the first equals sign, each without blanks at
its ends. A line that begins with a hash sign is a comment. -/
def settingOfLine (line : List Char) : Option (String × String) :=
  match Text.trim line with
  | '#' :: _ => none
  | cs =>
    (Text.cutFirst '=' cs).map fun (name, value) =>
      (String.ofList (Text.trim name), String.ofList (Text.trim value))

/-- The settings in a file, in order. -/
def settingsOf (content : String) : List (String × String) :=
  (Text.lines content).filterMap settingOfLine

/-- The directory that a path leads to and those above it, as many as given. -/
def upwards : Nat → Path → List Path
  | 0, _ => []
  | n + 1, p => p :: upwards n p.parent

/-- The first file with settings on the way up from a directory. -/
def settingsFile? (t : FileTree) (here : Location) (start : Path) : Option Path :=
  ((upwards searchDepth start).map fun d => d.child settingsName).find? (t.contains here)

/-! ### Variables -/

/-- Sets a variable unless it is set. -/
def adopt (env : Environment) (setting : String × String) : Except SettingFault Environment :=
  let (name, value) := setting
  if Table.has name env then .ok env
  else if name.toList.contains '\x00' || value.toList.contains '\x00' then .error .nulCharacter
  else if name.isEmpty then .error .emptyName
  else .ok (Table.put name value env)

/-- Sets the variables that are not set; those before a fault stay set. -/
def adoptAll (env : Environment) : List (String × String) → Environment × Except SettingFault Unit
  | [] => (env, .ok ())
  | setting :: rest =>
    match adopt env setting with
    | .ok env => adoptAll env rest
    | .error e => (env, .error e)

/-- What can be wrong with the settings. -/
inductive SettingsFault where
  | file (fault : FileFault)
  | setting (fault : SettingFault)
  deriving DecidableEq, Repr

/-- Sets the variables in the file with settings on the way up from a directory, if there is one. -/
def loadSettings (t : FileTree) (here : Location) (start : Path) (env : Environment) :
    Environment × Except SettingsFault Unit :=
  match settingsFile? t here start with
  | none => (env, .ok ())
  | some p =>
    match readText t here p with
    | .error e => (env, .error (.file e))
    | .ok content =>
      let (env, result) := adoptAll env (settingsOf content)
      (env, result.mapError .setting)

/-! ### The configuration -/

def variableStart : String := "FUZZSCAFFOLD_"

/-- The value of a variable, or another value if it is not set or empty. -/
def overridden (env : Environment) (name standard : String) : String :=
  match Table.find? (variableStart ++ name) env with
  | some value => if value.isEmpty then standard else value
  | none => standard

def configOf (env : Environment) : Config :=
  { clientCrate := overridden env "CLIENT_CRATE" Config.standard.clientCrate
    programIdConst := overridden env "PROGRAM_ID_CONST" Config.standard.programIdConst
    snapshotsModule := overridden env "SNAPSHOTS_MODULE" Config.standard.snapshotsModule
    snapshotsFile := overridden env "SNAPSHOTS_FILE" Config.standard.snapshotsFile
    fuzzInstructionsFile :=
      overridden env "FUZZ_INSTRUCTIONS_FILE" Config.standard.fuzzInstructionsFile }

end AnchorHarness.Workspace
