import AnchorHarness.Harness.Roles
import AnchorHarness.Snapshot.Plan
import AnchorHarness.Text.Lines

/-!
# The harness module

The fuzzing harness of a program is one module of generated code: an enum with a variant for each
instruction, the structs of each instruction, the code that runs each instruction, and a struct with
the accounts of all roles. What needs knowledge of the program is left open for a developer.

The declarations are data; `Declaration.lines` writes them.
-/

namespace AnchorHarness.Harness

open Program (ProgramIdl Idl Instruction AccountGroup)
open Text (indent block beginWith endStatement unlines)

/-- What stands for a part that is left open. -/
def placeholder : String := "todo!()"

def accountId : String := "AccountId"

/-- The code that runs an instruction. -/
structure Operations where
  name : String
  snapshot : String
  parameters : List String
  accounts : List String

/-- A declaration of the harness module. -/
inductive Declaration where
  /-- The enum of the instructions, by their type names. -/
  | choice (instructions : List String)
  | struct (name : String) (fields : List (String × String))
  | operations (o : Operations)
  | storage (roles : RoleRegistry)

def moduleName (p : ProgramIdl) : String := Text.snakeCase p.name

/-- The type of a parameter in the data of an instruction: an address is chosen by the fuzzer. -/
def dataType (type : String) : String := if isAddressType type then accountId else type

/-- The structs of an instruction: the instruction itself, its accounts and its data. -/
def structsOf (p : Instruction × AccountGroup) : List Declaration :=
  let name := p.1.typeName
  [ .struct name [("accounts", name ++ "Accounts"), ("data", name ++ "Data")],
    .struct (name ++ "Accounts") (p.2.fields.map fun f => (f.name, accountId)),
    .struct (name ++ "Data")
      (p.1.parameters.map fun (parameter, type) => (parameter, dataType type)) ]

def operationsOf (p : Instruction × AccountGroup) : Operations :=
  { name := p.1.typeName
    snapshot := Snapshot.snapshotName p.1.typeName
    parameters := p.1.parameters.map (·.1)
    accounts := p.2.fields.map (·.name) }

def declarationsOf (bindings : Bindings) (p : ProgramIdl) : List Declaration :=
  .choice (p.instructions.map fun (ix, _) => ix.typeName) ::
    (p.instructions.flatMap structsOf ++
      p.instructions.map (fun ix => .operations (operationsOf ix)) ++
      [.storage (registryOf bindings p)])

/-! ### Text -/

def choiceLines (instructions : List String) : List String :=
  [ "#[derive(Arbitrary, Clone, DisplayIx, FuzzTestExecutor, FuzzDeserialize)]",
    "pub enum FuzzInstruction \x7b" ] ++
  instructions.map (fun name => indent ++ name ++ "(" ++ name ++ "),") ++
  ["\x7d", ""]

def structLines (name : String) (fields : List (String × String)) : List String :=
  if fields.isEmpty then ["#[derive(Arbitrary, Clone)]", "pub struct " ++ name ++ " \x7b\x7d", ""]
  else
    ["#[derive(Arbitrary, Clone)]", "pub struct " ++ name ++ " \x7b"] ++
    fields.map (fun (field, type) => indent ++ "pub " ++ field ++ ": " ++ type ++ ",") ++
    ["\x7d", ""]

/-- The lines of an expression that builds a struct, with every field left open. -/
def literalLines (path : String) (names : List String) : List String :=
  if names.isEmpty then [path ++ " \x7b\x7d"]
  else
    [path ++ " \x7b"] ++ names.map (fun name => indent ++ name ++ ": " ++ placeholder ++ ",") ++
      ["\x7d"]

def dataLines (module : String) (o : Operations) : List String :=
  let literal := literalLines (module ++ "::instruction::" ++ o.name) o.parameters
  [ "fn get_data(",
    indent ++ "&self,",
    indent ++ "_client: &mut impl FuzzClient,",
    indent ++ "_fuzz_accounts: &mut FuzzAccounts,",
    ") -> Result<Self::IxData, FuzzingError> \x7b" ] ++
  block (beginWith "let data = " (endStatement literal) ++ ["Ok(data)"]) ++
  ["\x7d", ""]

def accountsLines (module : String) (o : Operations) : List String :=
  let literal := literalLines (module ++ "::accounts::" ++ o.name) o.accounts
  [ "fn get_accounts(",
    indent ++ "&self,",
    indent ++ "client: &mut impl FuzzClient,",
    indent ++ "fuzz_accounts: &mut FuzzAccounts,",
    ") -> Result<(Vec<Keypair>, Vec<AccountMeta>), FuzzingError> \x7b" ] ++
  block
    (["let signers = vec![" ++ placeholder ++ "];"] ++ beginWith "let acc_meta = " literal ++
      [".to_account_metas(None);", "Ok((signers, acc_meta))"]) ++
  ["\x7d", ""]

/-- The lines of the function that checks an instruction after it ran. -/
def checkLines : List String :=
  [ "fn check(",
    indent ++ "&self,",
    indent ++ "_pre_ix: Self::IxSnapshot,",
    indent ++ "_post_ix: Self::IxSnapshot,",
    indent ++ "_ix_data: Self::IxData,",
    ") -> Result<(), &'static str> \x7b",
    indent ++ placeholder,
    "\x7d" ]

def operationsLines (module : String) (o : Operations) : List String :=
  [ "impl<'info> IxOps<'info> for " ++ o.name ++ " \x7b",
    indent ++ "type IxData = " ++ module ++ "::instruction::" ++ o.name ++ ";",
    indent ++ "type IxAccounts = FuzzAccounts;",
    indent ++ "type IxSnapshot = " ++ o.snapshot ++ "<'info>;",
    "" ] ++
  block (dataLines module o ++ accountsLines module o ++ checkLines) ++
  ["\x7d", ""]

def roleLine (e : Entry) : String :=
  let storage := match e.2 with
    | some strategy => strategy.label
    | none => placeholder
  indent ++ e.1 ++ ": AccountsStorage<" ++ storage ++ ">,"

def storageLines (roles : RoleRegistry) : List String :=
  [ "/// Use AccountsStorage<T> where T can be one of:",
    "/// " ++ strategyNames,
    "#[derive(Default)]" ] ++
  (if roles.entries.isEmpty then ["pub struct FuzzAccounts \x7b\x7d"]
    else ["pub struct FuzzAccounts \x7b"] ++ roles.entries.map roleLine ++ ["\x7d"]) ++
  [ "",
    "impl FuzzAccounts \x7b",
    indent ++ "pub fn new() -> Self \x7b",
    indent ++ indent ++ "Default::default()",
    indent ++ "\x7d",
    "\x7d" ]

/-- The lines of a declaration; `module` is the name of the program in module paths. -/
def Declaration.lines (module : String) : Declaration → List String
  | .choice instructions => choiceLines instructions
  | .struct name fields => structLines name fields
  | .operations o => operationsLines module o
  | .storage roles => storageLines roles

def programCode (config : Config) (bindings : Bindings) (p : ProgramIdl) : String :=
  let module := moduleName p
  let body := ["use crate::" ++ config.snapshotsModule ++ "::*;", ""] ++
    (declarationsOf bindings p).flatMap (Declaration.lines module)
  unlines (["pub mod " ++ module ++ "_fuzz_instructions \x7b"] ++ block body ++ ["\x7d"])

def codeOf (config : Config) (bindings : Bindings) (idl : Idl) : String :=
  String.join (idl.programs.map (programCode config bindings))

/-! ### Unknown roles -/

/-- The roles that are bound but that no program has, in order. -/
def unknownRoles (bindings : Bindings) (idl : Idl) : List String :=
  ((bindings.map (·.1)).filter fun role =>
    !idl.programs.any fun p => (registryOf [] p).contains role).mergeSort

end AnchorHarness.Harness
