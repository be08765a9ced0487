import AnchorHarness.Text.Newline
import AnchorHarness.Text.Quoted
import AnchorHarness.Workspace.FileTree

/-!
# Reading and creating files

A generated file is put into a workspace together with the directories above it. A file that is
there already is kept unless it is to be replaced.

What was done before a fault stays done, so that changes come with the tree that they leave.
-/

namespace AnchorHarness.Workspace

/-- Why a file cannot be read or written. -/
inductive FileFault where
  | obstructed (obstacle : Obstacle) (path : Path)
  | unnameable
  deriving DecidableEq, Repr

def Obstacle.number : Obstacle → Nat
  | .missing => 2
  | .alreadyExists => 17
  | .notDirectory => 20
  | .isDirectory => 21

def Obstacle.message : Obstacle → String
  | .missing => "No such file or directory"
  | .alreadyExists => "File exists"
  | .notDirectory => "Not a directory"
  | .isDirectory => "Is a directory"

def FileFault.message : FileFault → String
  | .obstructed o p =>
    "[Errno " ++ toString o.number ++ "] " ++ o.message ++ ": " ++ Text.quoted p.text
  | .unnameable => "embedded null byte"

/-- Files and directories may have the names in the path: none holds the character NUL. -/
def Path.isNameable (p : Path) : Bool := p.segments.all fun s => !s.toList.contains '\x00'

/-- Reads a text, with its line breaks unified. -/
def readText (t : FileTree) (start : Location) (p : Path) : Except FileFault String :=
  match t.read start p with
  | .ok content => .ok (String.ofList (Text.unifyNewlines content.toList))
  | .error o => .error (.obstructed o p)

def writeFile (t : FileTree) (start : Location) (p : Path) (content : String) :
    Except FileFault FileTree :=
  if p.isNameable then (t.write start p content).mapError fun o => .obstructed o p
  else .error .unnameable

/-! ### Directories -/

/-- Accepts a directory that could not be made because it is there. -/
def acceptDirectory (t : FileTree) (start : Location) (p : Path) (o : Obstacle) :
    FileTree × Except FileFault Unit :=
  (t, if t.isDirectoryAt start p then .ok () else .error (.obstructed o p))

def makeLast (t : FileTree) (start : Location) (p : Path) : FileTree × Except FileFault Unit :=
  match t.makeDirectory start p with
  | .ok t => (t, .ok ())
  | .error .missing => (t, .error (.obstructed .missing p))
  | .error o => acceptDirectory t start p o

/-- Makes a directory and those above it, as far as they are missing. -/
def makeDirectories (t : FileTree) (start : Location) (p : Path) :
    FileTree × Except FileFault Unit :=
  if p.isNameable then
    match t.makeDirectory start p with
    | .ok t => (t, .ok ())
    | .error .missing =>
      if _h : p.segments = [] then (t, .error (.obstructed .missing p))
      else
        match makeDirectories t start p.parent with
        | (t, .ok ()) => makeLast t start p
        | (t, .error e) => (t, .error e)
    | .error o => acceptDirectory t start p o
  else (t, .error .unnameable)
termination_by p.segments.length
decreasing_by exact p.length_parent_lt _h

/-! ### Files -/

/-- What came of creating a file. -/
inductive Creation where
  /-- It was there, and it was kept. -/
  | skipped
  | created
  /-- It was there, and it was replaced. -/
  | updated
  deriving DecidableEq, Repr

def Creation.isWritten : Creation → Bool
  | .skipped => false
  | .created => true
  | .updated => true

/-- What came of creating a file, in the markup of the console. -/
def Creation.notice (p : Path) : Creation → String
  | .skipped => "[yellow]Skipping[/yellow] " ++ p.text ++ " [dim](already exists)[/dim]"
  | .created => "[green]✓ Created[/green] " ++ p.text
  | .updated => "[green]✓ Updated[/green] " ++ p.text

/-- Creates a file and the directories above it. What is there is kept unless `force` is set. -/
def createFile (t : FileTree) (start : Location) (p : Path) (content : String) (force : Bool) :
    FileTree × Except FileFault Creation :=
  let existed := t.contains start p
  if existed && !force then (t, .ok .skipped)
  else
    match makeDirectories t start p.parent with
    | (t, .error e) => (t, .error e)
    | (t, .ok ()) =>
      match writeFile t start p content with
      | .error e => (t, .error e)
      | .ok t => (t, .ok (if existed then .updated else .created))

end AnchorHarness.Workspace
