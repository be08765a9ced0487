import AnchorHarness.Harness.Module
import AnchorHarness.Proofs.Snapshot.Sharing
import AnchorHarness.Snapshot.Module

/-!
# The generated types, marked in the code

The code of the two generated modules as lines in pieces, where every name of a generated type is a
piece of its own, marked by what it is there for. Names that come from the program or from the
libraries are not marked. `unlines_harnessLines` and `unlines_snapshotLines` say that the code is
these lines without the marks, so that what is proved about the marked names is so of the text.
-/

namespace AnchorHarness.GeneratedTypes

open Harness (Operations RoleRegistry Bindings moduleName accountId dataType literalLines)
open Program (ProgramIdl Instruction AccountGroup)
open Snapshot (Snapshots Struct Alias)
open Text (indent indented block beginWith endStatement unlines)

/-! ### Lines with marks -/

/-- What the name of a generated type is there for. -/
inductive Mark where
  | enum
  | variant
  | struct
  | alias
  -- what an alias stands for
  | target
  -- the operations of an instruction, and the functions of a type that has its own
  | operations
  | functions
  -- the type of the snapshots that an instruction is checked with
  | snapshot
  -- any other place where a type is named
  | use
  deriving DecidableEq, Repr

abbrev Piece := String × Option Mark

abbrev Line := List Piece

def plain (s : String) : Piece := (s, none)

def Line.text (l : Line) : String := String.join (l.map Prod.fst)

def Line.marked (m : Mark) (l : Line) : List String :=
  l.filterMap fun piece => if piece.2 = some m then some piece.1 else none

def texts (lines : List Line) : List String := lines.map Line.text

/-- The names that bear a mark, in the order of the text. -/
def marked (m : Mark) (lines : List Line) : List String := lines.flatMap (Line.marked m)

def unmarked (lines : List String) : List Line := lines.map fun line => [plain line]

def deepened (lines : List Line) : List Line :=
  lines.map fun l => if l.text.isEmpty then l else plain indent :: l

@[simp] theorem fst_plain (s : String) : (plain s).1 = s := rfl

@[simp] theorem snd_plain (s : String) : (plain s).2 = none := rfl

@[simp] theorem text_nil : Line.text [] = "" := rfl

@[simp] theorem text_cons (piece : Piece) (l : Line) : Line.text (piece :: l) = piece.1 ++ l.text := by
  simp [Line.text]

@[simp] theorem Line.marked_nil (m : Mark) : Line.marked m [] = [] := rfl

@[simp] theorem Line.marked_cons (m : Mark) (piece : Piece) (l : Line) :
    Line.marked m (piece :: l) = (if piece.2 = some m then [piece.1] else []) ++ l.marked m := by
  rw [Line.marked, List.filterMap_cons]
  split <;> simp_all [Line.marked]

@[simp] theorem texts_append (a b : List Line) : texts (a ++ b) = texts a ++ texts b :=
  List.map_append

@[simp] theorem texts_cons (l : Line) (lines : List Line) :
    texts (l :: lines) = l.text :: texts lines := rfl

@[simp] theorem texts_nil : texts [] = [] := rfl

@[simp] theorem texts_unmarked (lines : List String) : texts (unmarked lines) = lines := by
  simp [texts, unmarked, Function.comp_def]

@[simp] theorem texts_deepened (lines : List Line) : texts (deepened lines) = block (texts lines) := by
  have one (l : Line) : Line.text (if l.text.isEmpty then l else plain indent :: l) =
      indented indent l.text := by
    unfold indented
    split
    · next h => simpa using h
    · simp
  simp only [texts, deepened, block, List.map_map, Function.comp_def, one]

@[simp] theorem marked_append (m : Mark) (a b : List Line) :
    marked m (a ++ b) = marked m a ++ marked m b := List.flatMap_append

@[simp] theorem marked_cons (m : Mark) (l : Line) (lines : List Line) :
    marked m (l :: lines) = l.marked m ++ marked m lines := List.flatMap_cons

@[simp] theorem marked_nil (m : Mark) : marked m [] = [] := rfl

@[simp] theorem marked_unmarked (m : Mark) (lines : List String) : marked m (unmarked lines) = [] := by
  simp [marked, unmarked]

@[simp] theorem marked_deepened (m : Mark) (lines : List Line) :
    marked m (deepened lines) = marked m lines := by
  have one (l : Line) : Line.marked m (if l.text.isEmpty then l else plain indent :: l) =
      l.marked m := by
    split
    · rfl
    · simp
  simp only [marked, deepened, List.flatMap_map, one]

theorem texts_flatMap {α : Type} (f : α → List Line) (xs : List α) :
    texts (xs.flatMap f) = xs.flatMap fun x => texts (f x) := List.map_flatMap

theorem marked_flatMap {α : Type} (m : Mark) (f : α → List Line) (xs : List α) :
    marked m (xs.flatMap f) = xs.flatMap fun x => marked m (f x) := List.flatMap_assoc

/-! ### The harness module -/

def fuzzAccounts : String := "FuzzAccounts"

def choiceLines (names : List String) : List Line :=
  [ [plain "#[derive(Arbitrary, Clone, DisplayIx, FuzzTestExecutor, FuzzDeserialize)]"],
    [plain "pub enum ", ("FuzzInstruction", some .enum), plain " \x7b"] ] ++
  names.map (fun name =>
    [plain indent, (name, some .variant), plain "(", (name, some .use), plain "),"]) ++
  [[plain "\x7d"], []]

def structLines (name : String) (fields : List (String × Piece)) : List Line :=
  [[plain "#[derive(Arbitrary, Clone)]"]] ++
  (if fields.isEmpty then [[plain "pub struct ", (name, some .struct), plain " \x7b\x7d"]]
    else
      [[plain "pub struct ", (name, some .struct), plain " \x7b"]] ++
      fields.map (fun field => [plain (indent ++ "pub " ++ field.1 ++ ": "), field.2, plain ","]) ++
      [[plain "\x7d"]]) ++
  [[]]

def instructionLines (p : Instruction × AccountGroup) : List Line :=
  let name := p.1.typeName
  structLines name
    [("accounts", (name ++ "Accounts", some .use)), ("data", (name ++ "Data", some .use))] ++
  structLines (name ++ "Accounts") (p.2.fields.map fun f => (f.name, plain accountId)) ++
  structLines (name ++ "Data")
    (p.1.parameters.map fun parameter => (parameter.1, plain (dataType parameter.2)))

def dataLines (module : String) (o : Operations) : List Line :=
  let literal := literalLines (module ++ "::instruction::" ++ o.name) o.parameters
  unmarked ["fn get_data(", indent ++ "&self,", indent ++ "_client: &mut impl FuzzClient,"] ++
  [[plain (indent ++ "_fuzz_accounts: &mut "), (fuzzAccounts, some .use), plain ","]] ++
  unmarked ([") -> Result<Self::IxData, FuzzingError> \x7b"] ++
    block (beginWith "let data = " (endStatement literal) ++ ["Ok(data)"]) ++ ["\x7d", ""])

def accountsLines (module : String) (o : Operations) : List Line :=
  let literal := literalLines (module ++ "::accounts::" ++ o.name) o.accounts
  unmarked ["fn get_accounts(", indent ++ "&self,", indent ++ "client: &mut impl FuzzClient,"] ++
  [[plain (indent ++ "fuzz_accounts: &mut "), (fuzzAccounts, some .use), plain ","]] ++
  unmarked ([") -> Result<(Vec<Keypair>, Vec<AccountMeta>), FuzzingError> \x7b"] ++
    block
      (["let signers = vec![" ++ Harness.placeholder ++ "];"] ++
        beginWith "let acc_meta = " literal ++
        [".to_account_metas(None);", "Ok((signers, acc_meta))"]) ++
    ["\x7d", ""])

def operationsLines (module : String) (o : Operations) : List Line :=
  [ [plain "impl<'info> IxOps<'info> for ", (o.name, some .operations), plain " \x7b"],
    [plain (indent ++ "type IxData = " ++ module ++ "::instruction::" ++ o.name ++ ";")],
    [plain (indent ++ "type IxAccounts = "), (fuzzAccounts, some .use), plain ";"],
    [plain (indent ++ "type IxSnapshot = "), (o.snapshot, some .snapshot), plain "<'info>;"],
    [] ] ++
  deepened (dataLines module o ++ accountsLines module o ++ unmarked Harness.checkLines) ++
  [[plain "\x7d"], []]

def storageLines (roles : RoleRegistry) : List Line :=
  unmarked
    [ "/// Use AccountsStorage<T> where T can be one of:",
      "/// " ++ Harness.strategyNames,
      "#[derive(Default)]" ] ++
  (if roles.entries.isEmpty then
      [[plain "pub struct ", (fuzzAccounts, some .struct), plain " \x7b\x7d"]]
    else
      [[plain "pub struct ", (fuzzAccounts, some .struct), plain " \x7b"]] ++
      unmarked (roles.entries.map Harness.roleLine ++ ["\x7d"])) ++
  [ [], [plain "impl ", (fuzzAccounts, some .functions), plain " \x7b"] ] ++
  unmarked
    [ indent ++ "pub fn new() -> Self \x7b",
      indent ++ indent ++ "Default::default()",
      indent ++ "\x7d",
      "\x7d" ]

def harnessLines (config : Config) (bindings : Bindings) (p : ProgramIdl) : List Line :=
  let module := moduleName p
  let body := unmarked ["use crate::" ++ config.snapshotsModule ++ "::*;", ""] ++
    choiceLines (p.instructions.map fun ix => ix.1.typeName) ++
    p.instructions.flatMap instructionLines ++
    p.instructions.flatMap (fun ix => operationsLines module (Harness.operationsOf ix)) ++
    storageLines (Harness.registryOf bindings p)
  unmarked ["pub mod " ++ module ++ "_fuzz_instructions \x7b"] ++ deepened body ++ unmarked ["\x7d"]

theorem texts_choiceLines (names : List String) :
    texts (choiceLines names) = Harness.choiceLines names := by
  have one (name : String) : indent ++ name ++ "(" ++ name ++ ")," =
      indent ++ (name ++ ("(" ++ (name ++ "),"))) := by
    simp only [String.append_assoc]
  simp [choiceLines, Harness.choiceLines, texts, one, Function.comp_def]

theorem texts_structLines (name : String) (fields : List (String × Piece)) :
    texts (structLines name fields) =
      Harness.structLines name (fields.map fun field => (field.1, field.2.1)) := by
  have one (field : String × Piece) :
      indent ++ "pub " ++ field.1 ++ ": " ++ field.2.1 ++ "," =
        indent ++ "pub " ++ field.1 ++ ": " ++ (field.2.1 ++ ",") := String.append_assoc ..
  cases fields with
  | nil => simp [structLines, Harness.structLines, String.append_assoc]
  | cons field fields =>
    simp [structLines, Harness.structLines, texts, String.append_assoc]

theorem texts_instructionLines (module : String) (p : Instruction × AccountGroup) :
    texts (instructionLines p) =
      (Harness.structsOf p).flatMap (Harness.Declaration.lines module) := by
  simp only [instructionLines, texts_append, texts_structLines, Harness.structsOf,
    Harness.Declaration.lines, List.flatMap_cons, List.flatMap_nil, List.append_nil, List.map_map,
    Function.comp_def, List.append_assoc]
  rfl

theorem texts_operationsLines (module : String) (o : Operations) :
    texts (operationsLines module o) = Harness.operationsLines module o := by
  simp [operationsLines, Harness.operationsLines, dataLines, accountsLines, Harness.dataLines,
    Harness.accountsLines, fuzzAccounts, String.append_assoc]

theorem texts_storageLines (roles : RoleRegistry) :
    texts (storageLines roles) = Harness.storageLines roles := by
  cases h : roles.entries.isEmpty <;>
    simp [storageLines, Harness.storageLines, h, fuzzAccounts]

/-- The harness module is its marked lines without the marks. -/
theorem unlines_harnessLines (config : Config) (bindings : Bindings) (p : ProgramIdl) :
    unlines (texts (harnessLines config bindings p)) = Harness.programCode config bindings p := by
  simp only [harnessLines, Harness.programCode, Harness.declarationsOf, texts_append,
    texts_unmarked, texts_deepened, texts_choiceLines, texts_flatMap, texts_operationsLines,
    texts_storageLines, texts_instructionLines (moduleName p), List.flatMap_cons,
    List.flatMap_append, List.flatMap_assoc, List.flatMap_map, List.flatMap_nil, List.append_nil,
    Harness.Declaration.lines, List.append_assoc]

/-! ### The snapshot module -/

def snapshotStructLines (s : Struct) : List Line :=
  let fields :=
    if s.fields.isEmpty then [indent ++ "_marker: " ++ Snapshot.phantom ++ "<&'info ()>,"]
    else s.fields.map fun field => indent ++ "pub " ++ field.1 ++ ": " ++ field.2 ++ ","
  [[plain "pub struct ", (s.name, some .struct), plain "<'info> \x7b"]] ++
    unmarked (fields ++ ["\x7d"])

def fillingLines (config : Config) (s : Struct) : List Line :=
  [[plain "impl<'info> ", (s.name, some .functions), plain "<'info> \x7b"]] ++
    unmarked (Snapshot.fillingLines config s).tail

def aliasLines (a : Alias) : List Line :=
  [[plain "pub type ", (a.name, some .alias), plain "<'info> = ", (a.target, some .target),
    plain "<'info>;"]]

def snapshotLines (config : Config) (s : Snapshots) : List Line :=
  [[]].intercalate (unmarked (Snapshot.useLines config) ::
    (s.structs.map snapshotStructLines ++ s.structs.map (fillingLines config) ++
      s.aliases.map aliasLines))

theorem texts_snapshotStructLines (s : Struct) :
    texts (snapshotStructLines s) = Snapshot.structLines s := by
  simp [snapshotStructLines, Snapshot.structLines, String.append_assoc]

theorem texts_fillingLines (config : Config) (s : Struct) :
    texts (fillingLines config s) = Snapshot.fillingLines config s := by
  simp [fillingLines, Snapshot.fillingLines, String.append_assoc]

theorem texts_aliasLines (a : Alias) : texts (aliasLines a) = Snapshot.aliasLines a := by
  simp [aliasLines, Snapshot.aliasLines, String.append_assoc]

theorem unlines_intercalate (parts : List (List Line)) :
    unlines (texts ([[]].intercalate parts)) =
      "\n".intercalate (parts.map fun part => unlines (texts part)) := by
  induction parts with
  | nil => simp [unlines]
  | cons part parts ih =>
    cases parts with
    | nil => simp
    | cons next parts =>
      -- An empty line between two parts is the line break that joins their texts.
      have blank : unlines [""] = "\n" := by simp [unlines]
      rw [List.intercalate_cons_cons, texts_append, texts_append, texts_cons, texts_nil, text_nil,
        Text.unlines_append, Text.unlines_append, blank, ih]
      simp only [List.map_cons, String.intercalate_cons_cons]

theorem unlines_snapshotLines (config : Config) (s : Snapshots) :
    unlines (texts (snapshotLines config s)) = s.code config := by
  simp only [snapshotLines, unlines_intercalate, Snapshots.code, Snapshots.declarations,
    List.map_cons, List.map_append, List.map_map, Function.comp_def, texts_unmarked,
    texts_snapshotStructLines, texts_fillingLines, texts_aliasLines, Snapshot.Declaration.lines]

end AnchorHarness.GeneratedTypes
