import AnchorHarness.Config
import AnchorHarness.Program.Idl
import AnchorHarness.Snapshot.Step
import AnchorHarness.Table

/-!
# Snapshots of a program

Every instruction of a program has a snapshot type. Instructions that take the same context share
one struct: the first of them gives it its name, and each later one gets a type alias for it.
Several programs are gone through one after the other; only the warnings are carried on from one to
the next.
-/

namespace AnchorHarness.Snapshot

open Account (Field)
open Program (ProgramIdl Instruction AccountGroup)

/-- A snapshot struct and how it is filled. -/
structure Struct where
  name : String
  identity : String
  contextName : String
  fields : List (String × String)
  plan : List Step
  composites : List Field

def Struct.slots (s : Struct) : Nat := (s.plan.filter Step.consumesSlot).length

/-- A second name for a snapshot struct. -/
structure Alias where
  name : String
  target : String
  deriving DecidableEq, Repr

/-- The snapshot types of a program. -/
structure Snapshots where
  structs : List Struct
  aliases : List Alias

/-- The name of the snapshot type of an instruction, from the instruction's type name. -/
def snapshotName (typeName : String) : String := typeName ++ "Snapshot"

def structFor (name : String) (group : AccountGroup) : Struct :=
  { name
    identity := group.identity
    contextName := group.name
    fields := group.fields.map fun f => (f.name, fieldType f)
    plan := group.fields.map stepFor
    composites := group.fields.filter Field.isComposite }

/-! ### Warnings -/

def compositeWarning (config : Config) (contextName : String) (f : Field) : String :=
  "The context `" ++ contextName ++ "` has a field named `" ++ f.name ++ "` of composite type `" ++
    f.declaredType ++ "`. The automatic deserialization of composite types is " ++
    "currently not supported. You will have to implement it manually in the " ++
    "generated `" ++ config.snapshotsFile ++ "` file. The field deserialization " ++
    "was replaced by a `todo!()` macro. Also, you might want to adapt the " ++
    "corresponding FuzzInstruction variants in `" ++ config.fuzzInstructionsFile ++ "` file."

def Struct.warnings (config : Config) (s : Struct) : List String :=
  s.composites.map (compositeWarning config s.contextName)

/-! ### Going through instructions and programs -/

/-- How far the snapshot types of a program have come. -/
structure Progress where
  /-- The contexts seen so far, each with the name of the struct that stands for it. -/
  canonical : Table String String
  structs : List Struct
  aliases : List Alias
  warnings : List String

def Progress.add (config : Config) (s : Progress) (p : Instruction × AccountGroup) : Progress :=
  let name := snapshotName p.1.typeName
  match Table.find? p.2.identity s.canonical with
  | some target => { s with aliases := s.aliases ++ [⟨name, target⟩] }
  | none =>
    let struct := structFor name p.2
    { s with
      canonical := Table.put p.2.identity name s.canonical
      structs := s.structs ++ [struct]
      warnings := s.warnings ++ struct.warnings config }

/-- The snapshots of one more program, and all warnings after it. -/
def nextSnapshots (config : Config) (earlier : List String) (p : ProgramIdl) :
    Snapshots × List String :=
  let s := p.instructions.foldl (Progress.add config) ⟨[], [], [], earlier⟩
  (⟨s.structs, s.aliases⟩, s.warnings)

/-- The snapshots of several programs in turn, each with all warnings after it. -/
def snapshotRun (config : Config) (earlier : List String) :
    List ProgramIdl → List (Snapshots × List String)
  | [] => []
  | p :: programs =>
    let next := nextSnapshots config earlier p
    next :: snapshotRun config next.2 programs

/-- All warnings after several programs. -/
def warningsAfter (config : Config) (earlier : List String) (programs : List ProgramIdl) :
    List String :=
  ((snapshotRun config earlier programs).getLast?.map (·.2)).getD earlier

end AnchorHarness.Snapshot
