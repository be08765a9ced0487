import AnchorHarness.Console.Event
import AnchorHarness.Workspace.Settings

/-!
# Sessions

A session is what a run of a command works on: the files, the environment, and what was put on the
console so far. An action changes the session and yields a value, or it is interrupted; what it did
before an interruption stays done.
-/

namespace AnchorHarness

open Console (Channel Event)
open Workspace (FileTree Location Path Environment)

/-- What a run works on. -/
structure Session where
  files : FileTree
  directory : Location
  environment : Environment
  events : List Event

/-- What ends a run before its end. -/
inductive Interruption where
  | file (fault : Workspace.FileFault)
  | setting (fault : Workspace.SettingFault)
  | markup (fault : Console.MarkupFault)
  deriving DecidableEq, Repr

def Interruption.message : Interruption → String
  | .file fault => fault.message
  | .setting fault => fault.message
  | .markup fault => fault.message

abbrev SessionM (α : Type) := ExceptT Interruption (StateM Session) α

def SessionM.perform {α : Type} (action : SessionM α) (s : Session) :
    Except Interruption α × Session :=
  (ExceptT.run action).run s

namespace SessionM

/-- Interrupts unless there is a value. -/
def orInterrupt {ε α : Type} (interruption : ε → Interruption) (result : Except ε α) : SessionM α :=
  match result with
  | .ok a => pure a
  | .error e => throw (interruption e)

def record (event : Event) : SessionM Unit :=
  modify fun s => { s with events := s.events ++ [event] }

def write (channel : Channel) (text : String) : SessionM Unit := record (.text channel text)

def say (channel : Channel) (markup : String) : SessionM Unit := do
  write channel (← orInterrupt .markup (Console.message markup))

/-- Puts an event on the console, if all of its markup can be shown. -/
def draw (event : Event) : SessionM Unit :=
  match event.fault? with
  | none => record event
  | some fault => throw (.markup fault)

def createFile (channel : Channel) (p : Path) (content : String) (force : Bool) :
    SessionM Workspace.Creation := do
  let s ← get
  let (files, result) := Workspace.createFile s.files s.directory p content force
  set { s with files }
  let creation ← orInterrupt .file result
  say channel (creation.notice p)
  return creation

def writeFile (p : Path) (content : String) : SessionM Unit := do
  let s ← get
  let files ← orInterrupt .file (Workspace.writeFile s.files s.directory p content)
  set { s with files }

def ofSettingsFault : Workspace.SettingsFault → Interruption
  | .file fault => .file fault
  | .setting fault => .setting fault

def loadSettings (start : Path) : SessionM Unit := do
  let s ← get
  let (environment, result) := Workspace.loadSettings s.files s.directory start s.environment
  set { s with environment }
  orInterrupt ofSettingsFault result

/-- The settings of the generated code, once the settings of the working directory are loaded. -/
def loadConfig : SessionM Config := do
  loadSettings ⟨"/", (← get).directory⟩
  return Workspace.configOf (← get).environment

end SessionM

end AnchorHarness
