import AnchorHarness.Snapshot.Plan
import AnchorHarness.Snapshot.Statement

/-!
# The snapshot module

The generated code of a program's snapshots: what it uses, every struct, the code that fills every
struct, and every alias, in this order. The declarations are data; `Declaration.text` writes them.
-/

namespace AnchorHarness.Snapshot

open Program (ProgramIdl Idl)
open Text (indent block unlines)

/-- A declaration of the snapshot module. -/
inductive Declaration where
  | struct (s : Struct)
  | filling (s : Struct)
  | alias (a : Alias)

def Snapshots.declarations (s : Snapshots) : List Declaration :=
  s.structs.map .struct ++ s.structs.map .filling ++ s.aliases.map .alias

/-! ### Text -/

/-- The marker that a struct without fields has in place of them. -/
def phantom : String := "core::marker::PhantomData"

def structLines (s : Struct) : List String :=
  let fields :=
    if s.fields.isEmpty then [indent ++ "_marker: " ++ phantom ++ "<&'info ()>,"]
    else s.fields.map fun (name, type) => indent ++ "pub " ++ name ++ ": " ++ type ++ ","
  ["pub struct " ++ s.name ++ "<'info> \x7b"] ++ fields ++ ["\x7d"]

/-- The lines that bind the fields of a struct, with an empty line after each statement. -/
def bindingLines (config : Config) (s : Struct) : List String :=
  s.plan.flatMap fun step => (statementFor step).lines config.programIdConst ++ [""]

/-- The lines that build a struct from the fields bound before. -/
def resultLines (s : Struct) : List String :=
  let fields :=
    if s.fields.isEmpty then [indent ++ "_marker: " ++ phantom ++ ","]
    else s.fields.map fun (name, _) => indent ++ name ++ ","
  ["Ok(Self \x7b"] ++ fields ++ ["\x7d)"]

def fillingLines (config : Config) (s : Struct) : List String :=
  let cursor := if s.slots = 0 then [] else ["let mut accounts_iter = accounts.iter();", ""]
  let body := cursor ++ bindingLines config s ++ resultLines s
  [ "impl<'info> " ++ s.name ++ "<'info> \x7b",
    indent ++ "pub fn deserialize_option(",
    indent ++ indent ++ "accounts: &'info mut [Option<AccountInfo<'info>>],",
    indent ++ ") -> core::result::Result<Self, FuzzingError> \x7b" ] ++
  block (block body) ++
  [indent ++ "\x7d", "\x7d"]

def aliasLines (a : Alias) : List String :=
  ["pub type " ++ a.name ++ "<'info> = " ++ a.target ++ "<'info>;"]

def Declaration.lines (config : Config) : Declaration → List String
  | .struct s => structLines s
  | .filling s => fillingLines config s
  | .alias a => aliasLines a

def useLines (config : Config) : List String :=
  [ "use " ++ config.clientCrate ++ "::anchor_lang::\x7bprelude::*, self\x7d;",
    "use " ++ config.clientCrate ++ "::fuzzing::FuzzingError;" ]

def Snapshots.code (config : Config) (s : Snapshots) : String :=
  "\n".intercalate
    ((useLines config :: s.declarations.map (Declaration.lines config)).map unlines)

def codeOf (config : Config) (idl : Idl) : String :=
  String.join ((snapshotRun config [] idl.programs).map fun next => next.1.code config)

def warningsOf (config : Config) (idl : Idl) : List String := warningsAfter config [] idl.programs

end AnchorHarness.Snapshot
