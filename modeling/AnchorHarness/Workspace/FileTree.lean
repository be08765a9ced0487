import AnchorHarness.Table
import AnchorHarness.Workspace.Path

/-!
# File trees

A file tree holds files and directories by their locations: the names on the way down from the
root, which is a directory of every tree. A path is followed from a directory segment by segment,
and each step must start in a directory.

Main statement: `lookup_put` says what a tree holds after a change.
-/

namespace AnchorHarness.Workspace

abbrev Location := List String

/-- What can stand at a location. A file holds text: one that is not UTF-8 has no place here. -/
inductive Node where
  | file (content : String)
  | directory
  deriving DecidableEq, Repr

/-- Files and directories by their locations. -/
structure FileTree where
  nodes : Table Location Node

/-- Why a path leads nowhere, or cannot be used as intended. -/
inductive Obstacle where
  | missing
  | alreadyExists
  | notDirectory
  | isDirectory
  deriving DecidableEq, Repr

namespace FileTree

/-- Nothing but the root. -/
def empty : FileTree := ⟨[]⟩

def lookup (t : FileTree) (l : Location) : Option Node :=
  if l = [] then some .directory else Table.find? l t.nodes

def put (t : FileTree) (l : Location) (n : Node) : FileTree := ⟨Table.put l n t.nodes⟩

theorem lookup_put (t : FileTree) (l m : Location) (n : Node) (h : l ≠ []) :
    (t.put l n).lookup m = if l = m then some n else t.lookup m := by
  by_cases hm : m = []
  · simp [lookup, hm, h]
  · simp [lookup, put, hm, Table.find?_put]

def isDirectory (t : FileTree) (l : Location) : Bool := t.lookup l == some .directory

/-! ### Following a path -/

/-- One step from a location, which must be a directory. -/
def enter (t : FileTree) (l : Location) (segment : String) : Except Obstacle Location :=
  match t.lookup l with
  | none => .error .missing
  | some (.file _) => .error .notDirectory
  | some .directory =>
    .ok (if segment.isEmpty || segment = stay then l
      else if segment = up then l.dropLast
      else l ++ [segment])

/-- The location that a path leads to from a directory. Nothing need stand there. -/
def follow (t : FileTree) (start : Location) (p : Path) : Except Obstacle Location :=
  p.segments.foldlM t.enter (if p.isAbsolute then [] else start)

def find? (t : FileTree) (start : Location) (p : Path) : Option (Location × Node) :=
  match t.follow start p with
  | .error _ => none
  | .ok l => (t.lookup l).map fun n => (l, n)

def contains (t : FileTree) (start : Location) (p : Path) : Bool := (t.find? start p).isSome

def isDirectoryAt (t : FileTree) (start : Location) (p : Path) : Bool :=
  match t.find? start p with
  | some (_, .directory) => true
  | _ => false

/-! ### Reading and writing -/

def read (t : FileTree) (start : Location) (p : Path) : Except Obstacle String := do
  match t.lookup (← t.follow start p) with
  | none => throw .missing
  | some .directory => throw .isDirectory
  | some (.file content) => return content

/-- Where a file can be written: no directory stands there, and a slash behind the path would name
one. -/
def target (t : FileTree) (start : Location) (p : Path) : Except Obstacle Location := do
  let slashed := p.segments.getLast? = some ""
  let segments := p.segments.reverse.dropWhile String.isEmpty |>.reverse
  let l ← t.follow start { p with segments }
  if slashed || t.isDirectory l then throw .isDirectory
  return l

/-- Writes a file, in place of the one that stands there. -/
def write (t : FileTree) (start : Location) (p : Path) (content : String) :
    Except Obstacle FileTree :=
  (t.target start p).map fun l => t.put l (.file content)

def makeDirectory (t : FileTree) (start : Location) (p : Path) : Except Obstacle FileTree := do
  let l ← t.follow start p
  match t.lookup l with
  | none => return t.put l .directory
  | some _ => throw .alreadyExists

/-! ### Whole trees -/

/-- The locations on the way to a location, it included. -/
def wayTo (l : Location) : List Location := (List.range (l.length + 1)).map l.take

def plantDirectory (t : FileTree) (l : Location) : FileTree :=
  (wayTo l).foldl (fun t d => if t.isDirectory d then t else t.put d .directory) t

def plant (t : FileTree) (l : Location) (content : String) : FileTree :=
  (t.plantDirectory l.dropLast).put l (.file content)

/-- The files below a location, by the names on the way from there. -/
def filesBelow (t : FileTree) (top : Location) : List (Location × String) :=
  t.nodes.filterMap fun (l, n) =>
    match n with
    | .file content => if top.isPrefixOf l then some (l.drop top.length, content) else none
    | .directory => none

end FileTree

end AnchorHarness.Workspace
