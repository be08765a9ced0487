import AnchorHarness.Json
import AnchorHarness.Program.Analysis
import AnchorHarness.Text.Words

/-!
# Program descriptions

The description of a program lists its instructions, each with its parameters and the group of
accounts that it takes. It is what the generated code is made from.
-/

namespace AnchorHarness.Program

/-- An instruction of a program. -/
structure Instruction where
  name : String
  parameters : List (String × String)
  deriving DecidableEq, Repr

/-- The accounts that an instruction takes. -/
structure AccountGroup where
  name : String
  identity : String
  fields : List Account.Field
  deriving DecidableEq, Repr

/-- The description of a program. -/
structure ProgramIdl where
  name : String
  address : Option String
  instructions : List (Instruction × AccountGroup)
  deriving DecidableEq, Repr

/-- The descriptions of several programs. -/
structure Idl where
  programs : List ProgramIdl
  deriving DecidableEq, Repr

def Instruction.typeName (ix : Instruction) : String := Text.upperCamelCase ix.name

/-- The group of a handler. A handler of the analysis always has a context there. -/
def groupOf (a : Analysis) (h : Handler) : AccountGroup :=
  match a.contextFor? h with
  | some c => ⟨c.name, c.identity, c.fields⟩
  | none => ⟨h.contextName, h.contextIdentity, []⟩

def Analysis.idl (a : Analysis) : ProgramIdl :=
  ⟨a.name, a.address, a.handlers.map fun h => (⟨h.name, h.parameters⟩, groupOf a h)⟩

/-- The first instruction with a given name, as written or as a type name. -/
def ProgramIdl.find? (p : ProgramIdl) (name : String) : Option (Instruction × AccountGroup) :=
  p.instructions.find? fun (ix, _) => ix.name = name || ix.typeName = name

/-! ### Documents -/

def fieldJson (f : Account.Field) : Json :=
  .object [
    ("name", .string f.name),
    ("type", .string f.declaredType),
    ("kind", .string f.kind.label),
    ("inner_type", Json.ofOption f.innerType),
    ("optional", .boolean f.isOptional),
    ("boxed", .boolean f.isBoxed),
    ("init", .boolean f.hasInit),
    ("close", .boolean f.hasClose)]

def parameterJson (p : String × String) : Json :=
  .object [("name", .string p.1), ("type", .string p.2)]

def groupJson (g : AccountGroup) : Json :=
  .object [
    ("name", .string g.name),
    ("context", .string g.identity),
    ("accounts", .array (g.fields.map fieldJson))]

def instructionJson (p : Instruction × AccountGroup) : Json :=
  .object [
    ("name", .string p.1.name),
    ("parameters", .array (p.1.parameters.map parameterJson)),
    ("accounts", groupJson p.2)]

def ProgramIdl.json (p : ProgramIdl) : Json :=
  .object [
    ("name", .string p.name),
    ("program_id", Json.ofOption p.address),
    ("instructions", .array (p.instructions.map instructionJson))]

def Idl.json (idl : Idl) : Json := .object [("programs", .array (idl.programs.map ProgramIdl.json))]

/-! ### Summary -/

def summaryLine (p : Instruction × AccountGroup) : String :=
  "  • " ++ p.1.name ++ " (" ++ p.2.name ++ ", " ++ toString p.2.fields.length ++ " accounts)"

def ProgramIdl.summary (p : ProgramIdl) : String :=
  "\n".intercalate
    (("Program: " ++ p.name) :: ("Instructions: " ++ toString p.instructions.length) ::
      p.instructions.map summaryLine)

end AnchorHarness.Program
