import AnchorHarness.Harness.Storage
import AnchorHarness.Program.Idl
import AnchorHarness.Workspace.Storing

/-!
# Sources

Loading the programs of a command. The entry files go with the sources by position. The programs
are read and analysed one after the other, and the first that fails decides.
-/

namespace AnchorHarness.CommandLine

open Workspace (FileTree Location Path)
open Program (Idl ProgramIdl)
open Rust (SourceFile)

/-- Why a command is refused. -/
inductive Refusal where
  | tooManyEntries (entries sources : Nat)
  | sourceMissing (path : Path)
  | entryMissing (path : Path)
  | program (error : Program.Error)
  | storage (error : Harness.StorageError)

def Refusal.message : Refusal → String
  | .tooManyEntries entries sources =>
    toString entries ++ " --entry files given for " ++ toString sources ++ " sources"
  | .sourceMissing path => "Source file not found: " ++ path.text
  | .entryMissing path => "Entry file not found: " ++ path.text
  | .program error => error.message
  | .storage error => error.message

/-- Why loading fails: the command is refused, or a file that is there cannot be read. -/
inductive LoadError where
  | refused (refusal : Refusal)
  | unreadable (fault : Workspace.FileFault)

/-- Reads and parses a file; `missing` is the refusal if there is none. -/
def loadSource (t : FileTree) (here : Location) (missing : Path → Refusal) (name : String) :
    Except LoadError SourceFile :=
  let p := Path.ofText name
  if t.contains here p then
    match Workspace.readText t here p with
    | .ok text => .ok (SourceFile.parse text)
    | .error fault => .error (.unreadable fault)
  else .error (.refused (missing p))

/-- Loads a program from its source and its entry file, if it has one. -/
def loadProgram (t : FileTree) (here : Location) (source : String) (entry : Option String) :
    Except LoadError ProgramIdl := do
  let code ← loadSource t here .sourceMissing source
  let entryCode ← match entry with
    | none => pure none
    | some name => (loadSource t here .entryMissing name).map some
  match Program.analyze code entryCode none with
  | .ok analysis => return analysis.idl
  | .error error => throw (.refused (.program error))

def pairEntries : List String → List String → List (String × Option String)
  | [], _ => []
  | source :: sources, [] => (source, none) :: pairEntries sources []
  | source :: sources, entry :: entries => (source, some entry) :: pairEntries sources entries

def loadPrograms (t : FileTree) (here : Location) (sources entries : List String) :
    Except LoadError Idl :=
  if sources.length < entries.length then
    .error (.refused (.tooManyEntries entries.length sources.length))
  else
    ((pairEntries sources entries).mapM fun (source, entry) =>
      loadProgram t here source entry).map Idl.mk

def loadBound (t : FileTree) (here : Location) (sources entries storage : List String) :
    Except LoadError (Idl × Harness.Bindings) := do
  let idl ← loadPrograms t here sources entries
  let bindings ← (Harness.parseBindings storage).mapError fun e => .refused (.storage e)
  return (idl, bindings)

end AnchorHarness.CommandLine
