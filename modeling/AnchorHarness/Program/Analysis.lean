import AnchorHarness.Program.DeclaredAddress
import AnchorHarness.Program.Error
import AnchorHarness.Rust.StructIndex

/-!
# Analysing a program

A program is a module marked with the attribute `program`. Every function in it is an instruction
handler, whose first parameter `Context<T>` names the struct `T` of the accounts that it takes. The
marked module and the structs may be in two files, since expanding macros consumes the mark.

The steps are taken in a fixed order, each for the whole program, and the first one that fails
decides the error: the module, the handlers, the contexts in the order of their first use, and last
the declared address.
-/

namespace AnchorHarness.Program

open Rust (Sibling Item TypeRef Parameter SourceFile StructIndex StructDefinition)

/-- An instruction handler. -/
structure Handler where
  name : String
  context : TypeRef
  parameters : List (String × String)

/-- What tells two contexts apart: the text of the type. -/
def Handler.contextIdentity (h : Handler) : String := h.context.text

def Handler.contextName (h : Handler) : String := h.context.ident.getD ""

/-- A context struct with its fields classified. -/
structure Context where
  name : String
  identity : String
  modulePath : List String
  fields : List Account.Field

/-- What analysing a program yields. -/
structure Analysis where
  name : String
  handlers : List Handler
  /-- The contexts in the order of their first use. -/
  contexts : List Context
  address : Option String

/-! ### The program module -/

def programMark : String := "program"

/-- The name and body of a module; no body if it is in another file. -/
def moduleOf? : Item → Option (String × Option (List (Sibling Item)))
  | .module name body => some (name, some body)
  | .moduleDeclaration name => some (name, none)
  | _ => none

def markedModules (items : List (Sibling Item)) : List (String × Option (List (Sibling Item))) :=
  (Rust.attached items).filterMap fun (attributes, item) =>
    if attributes.any fun a => Rust.attributePath a = programMark then moduleOf? item else none

def programModule (items : List (Sibling Item)) (name : Option String) :
    Except Error (String × Option (List (Sibling Item))) :=
  match markedModules items with
  | [] => .error ⟨.moduleMissing, name⟩
  | [m] => .ok m
  | ms => .error ⟨.moduleAmbiguous (ms.map (·.1)), name⟩

/-- The name of a program: the given one unless it is empty, else its module's. -/
def programName (given : Option String) (moduleName : String) : String :=
  match given with
  | some name => if name.isEmpty then moduleName else name
  | none => moduleName

/-! ### Handlers -/

/-- The type that a context parameter is applied to: the only argument besides lifetimes, which
must be a path. -/
def contextArgument? (p : Parameter) : Option TypeRef :=
  if p.type.kind = .genericType then
    match p.type.typeArgs with
    | [ty] => if ty.isPath then some ty else none
    | _ => none
  else none

def handlerOf (program function : String) (parameters : List Parameter) : Except Error Handler :=
  match parameters with
  | [] => .error ⟨.malformedHandler function, some program⟩
  | first :: others =>
    match contextArgument? first with
    | none => .error ⟨.malformedHandler function, some program⟩
    | some context => .ok ⟨function, context, others.map fun p => (p.pattern, p.type.text)⟩

def functionsOf (body : List (Sibling Item)) : List (String × List Parameter) :=
  (Rust.attached body).filterMap fun (_, item) =>
    match item with
    | .function name parameters => some (name, parameters)
    | _ => none

def handlersOf (program : String) (body : List (Sibling Item)) : Except Error (List Handler) :=
  (functionsOf body).mapM fun (name, parameters) => handlerOf program name parameters

/-! ### Contexts -/

/-- The fields of a context struct, classified. -/
def contextFields (struct : String) (members : List (Sibling Rust.Member)) :
    Except Error (List Account.Field) :=
  (Rust.declaredFields members).mapM fun (attributes, f) =>
    (Account.classify f.name f.type attributes).mapError fun reason =>
      ⟨.unsupportedField struct f.name f.type.text reason, none⟩

def contextOf (program identity : String) (d : StructDefinition) : Except Error Context :=
  match d.body with
  | .unnamed => .error ⟨.contextUnnamed d.name, some program⟩
  | .named members =>
    (contextFields d.name members).map fun fields => ⟨d.name, identity, d.modulePath, fields⟩

def resolveContext (index : StructIndex) (program : String) (h : Handler) :
    Except Error Context :=
  match index.lookup h.contextName with
  | none => .error ⟨.contextMissing h.contextName, some program⟩
  | some d => contextOf program h.contextIdentity d

/-- Adds the context of one more handler, unless one of its identity is known. -/
def addContext (index : StructIndex) (program : String) (known : List Context) (h : Handler) :
    Except Error (List Context) :=
  if known.any fun c => c.identity = h.contextIdentity then .ok known
  else (resolveContext index program h).map fun c => known ++ [c]

/-- The contexts of the handlers, in the order of their first use. -/
def contextsOf (index : StructIndex) (program : String) (handlers : List Handler) :
    Except Error (List Context) :=
  handlers.foldlM (addContext index program) []

/-! ### The address -/

/-- The address that a literal is, in its own spelling. -/
def addressOf (program : String) (literal : Option String) : Except Error (Option String) :=
  match literal with
  | none => .ok none
  | some text =>
    match Address.parse text with
    | .ok address => .ok (some address.text)
    | .error fault => .error ⟨.invalidAddress text fault, some program⟩

/-- The literal of the first declaration in the entry file, or else in the code. -/
def declaredLiteral (entry : Option SourceFile) (code : SourceFile) : Option String :=
  literalIn (entry.map SourceFile.tree) code.tree

/-! ### The whole -/

/-- Analyses a program: `code` holds the structs, and `entry`, if given, the program module. -/
def analyze (code : SourceFile) (entry : Option SourceFile) (name : Option String) :
    Except Error Analysis := do
  let (moduleName, body) ← programModule (entry.getD code).items name
  let program := programName name moduleName
  match body with
  | none => throw ⟨.moduleEmpty, some program⟩
  | some body =>
    let handlers ← handlersOf program body
    let contexts ← contextsOf (StructIndex.build code.items) program handlers
    let address ← addressOf program (declaredLiteral entry code)
    return ⟨program, handlers, contexts, address⟩

def Analysis.contextFor? (a : Analysis) (h : Handler) : Option Context :=
  a.contexts.find? fun c => c.identity = h.contextIdentity

end AnchorHarness.Program
