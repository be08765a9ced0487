import AnchorHarness.Rust.Tree
import AnchorHarness.Rust.TypeText
import AnchorHarness.Text.Cut

/-!
# Types as written

A type is kept as its canonical text, what kind of type it is, the segments of its path and its
generic arguments. Only plain and generic paths have segments, and only generic paths have
arguments. `TypeRef.ofTrees` reads a type from token trees: angle groups are already matched there,
so every kind is told from the outermost trees, and the arguments are found bottom-up.
-/

namespace AnchorHarness.Rust

/-- What a type, or an argument of a type, is written as. -/
inductive TypeKind where
  | typeIdentifier
  | scopedTypeIdentifier
  | genericType
  | primitiveType
  | referenceType
  | pointerType
  | arrayType
  | unitType
  | tupleType
  | functionType
  | dynamicType
  | abstractType
  | boundedType
  | neverType
  | removedTraitBound
  | macroInvocation
  | metavariable
  | lifetime
  | block
  | integerLiteral
  | floatLiteral
  | booleanLiteral
  | charLiteral
  | stringLiteral
  | rawStringLiteral
  | typeBinding
  | traitBounds
  | unknown
  deriving DecidableEq, Repr

def TypeKind.label : TypeKind → String
  | .typeIdentifier => "type_identifier"
  | .scopedTypeIdentifier => "scoped_type_identifier"
  | .genericType => "generic_type"
  | .primitiveType => "primitive_type"
  | .referenceType => "reference_type"
  | .pointerType => "pointer_type"
  | .arrayType => "array_type"
  | .unitType => "unit_type"
  | .tupleType => "tuple_type"
  | .functionType => "function_type"
  | .dynamicType => "dynamic_type"
  | .abstractType => "abstract_type"
  | .boundedType => "bounded_type"
  | .neverType => "never_type"
  | .removedTraitBound => "removed_trait_bound"
  | .macroInvocation => "macro_invocation"
  | .metavariable => "metavariable"
  | .lifetime => "lifetime"
  | .block => "block"
  | .integerLiteral => "integer_literal"
  | .floatLiteral => "float_literal"
  | .booleanLiteral => "boolean_literal"
  | .charLiteral => "char_literal"
  | .stringLiteral => "string_literal"
  | .rawStringLiteral => "raw_string_literal"
  | .typeBinding => "type_binding"
  | .traitBounds => "trait_bounds"
  | .unknown => "unknown"

/-- A type as written. -/
structure TypeRef where
  text : String
  kind : TypeKind
  path : List String
  args : List TypeRef
  deriving Repr

/-- The last segment of the path. -/
def TypeRef.ident (ty : TypeRef) : Option String := ty.path.getLast?

/-- The type is a path, plain or generic. -/
def TypeRef.isPath (ty : TypeRef) : Bool := !ty.path.isEmpty

def TypeRef.isLifetime (ty : TypeRef) : Bool := ty.kind == .lifetime

/-- The arguments that are no lifetimes. -/
def TypeRef.typeArgs (ty : TypeRef) : List TypeRef := ty.args.filter fun a => !a.isLifetime

/-- The type is a path without arguments. -/
def TypeRef.isPlainPath (ty : TypeRef) : Bool :=
  ty.kind == .typeIdentifier || ty.kind == .scopedTypeIdentifier

/-! ### Kinds -/

def primitiveTypes : List String :=
  ["u8", "i8", "u16", "i16", "u32", "i32", "u64", "i64", "u128", "i128", "isize", "usize",
    "f32", "f64", "bool", "str", "char"]

/-- The kind of a path with what follows it: a call of a macro, a function with parameters in
parentheses, a path with arguments or a bare path. -/
def kindOfPath (ts : List Tree) : TypeKind :=
  match ts.find? fun t => t.isSymbol "!" || t.isGroup .paren with
  | some (.leaf _) => .macroInvocation
  | some (.group ..) => .functionType
  | none =>
    if (ts.getLast?.map (Tree.isGroup .angle)).getD false then .genericType
    else match ts with
      | [.leaf t] =>
        if primitiveTypes.contains (String.ofList t.text) then .primitiveType else .typeIdentifier
      | _ => .scopedTypeIdentifier

/-- The kind of a type that begins with the given token. A metavariable may also begin a path. -/
def kindOfLeaf (t : Token) (ts : List Tree) : TypeKind :=
  if t.isSymbol "&" then .referenceType
  else if t.isSymbol "*" then .pointerType
  else if t.isSymbol "!" then .neverType
  else if t.isSymbol "?" then .removedTraitBound
  else if t.isSymbol "$" then if ts.any (Tree.isSymbol "::") then kindOfPath ts else .metavariable
  else if t.isWord "dyn" then .dynamicType
  else if t.isWord "impl" then .abstractType
  else if ["fn", "for", "unsafe", "extern"].any t.isWord then .functionType
  else kindOfPath ts

/-- The trees after a sum that belongs to the word in front of it: `dyn` and `impl` are followed by
one type, and a lifetime is one only together with what is added to it. -/
def afterInnerSum (ts : List Tree) : List Tree :=
  match withoutComments ts with
  | t :: u :: plus :: rest =>
    if (t.isWord "dyn" || t.isWord "impl") && u.isKind .lifetime && plus.isSymbol "+" then rest
    else ts
  | _ => ts

/-- The kind of a type. A sum is told by its `+`; every other kind by how it begins. -/
def kindOfType (ts : List Tree) : TypeKind :=
  if (afterInnerSum ts).any (Tree.isSymbol "+") then .boundedType
  else match ts with
    | [] => .unknown
    | .leaf t :: _ => kindOfLeaf t ts
    | .group .paren _ body _ :: _ => if body.all Tree.isComment then .unitType else .tupleType
    | .group .bracket .. :: _ => .arrayType
    | .group .brace .. :: _ => .block
    | .group .angle .. :: _ => kindOfPath ts

def isFloatText (cs : List Char) : Bool :=
  match cs.dropWhile fun c => isDigit c || c == '_' with
  | c :: _ => c == '.' || c == 'e' || c == 'E'
  | [] => false

def kindOfLiteral? (t : Token) : Option TypeKind :=
  match t.kind with
  | .number => some (if isFloatText t.text then .floatLiteral else .integerLiteral)
  | .character => some .charLiteral
  | .text => some .stringLiteral
  | .rawText => some .rawStringLiteral
  | .lifetime => some .lifetime
  | .word => if t.isWord "true" || t.isWord "false" then some .booleanLiteral else none
  | _ => none

/-! ### Reading -/

/-- The segments of a path, from its text: the parts between double colons, without blanks at
their ends and without empty ones. -/
def pathSegments (cs : List Char) : List String :=
  (((Text.cutColons cs).map Text.trim).filter fun s => !s.isEmpty).map String.ofList

/-- A tree with the arguments that it lists if it is an angle group. -/
abbrev WithArguments := Tree × List TypeRef

/-- The trees before the last one, without the comments behind. -/
def beforeLast (ts : List Tree) : List Tree := trimComments ts.dropLast

/-- A type, from its trees and the arguments that they list; `arguments` are those of the last. -/
def typeOfTrees (ts : List Tree) (arguments : List TypeRef) : TypeRef :=
  let text := textOfTrees ts
  let kind := kindOfType ts
  { text := String.ofList (canonicalType text)
    kind
    path := match kind with
      | .typeIdentifier | .scopedTypeIdentifier => pathSegments text
      | .genericType => pathSegments (textOfTrees (beforeLast ts))
      | _ => []
    args := if kind = .genericType then arguments else [] }

/-- An entry of an argument list that has no structure of its own. -/
def atomOfTrees (kind : TypeKind) (ts : List Tree) : TypeRef :=
  { text := String.ofList (canonicalType (textOfTrees ts)), kind, path := [], args := [] }

/-- The annotated trees without the comments at both ends. -/
def trimAnnotated {α : Type} (ts : List (Tree × α)) : List (Tree × α) :=
  ((ts.dropWhile (·.1.isComment)).reverse.dropWhile (·.1.isComment)).reverse

def typeOfAnnotated (ts : List WithArguments) : TypeRef :=
  let ts := trimAnnotated ts
  typeOfTrees (ts.map (·.1)) ((ts.getLast?.map (·.2)).getD [])

/-- An argument without bounds: a binding, a literal, a lifetime, a block or a type. -/
def simpleArgument (ts : List WithArguments) : TypeRef :=
  if ts.any (·.1.isSymbol "=") then atomOfTrees .typeBinding (ts.map (·.1))
  else match ts with
    | [(.leaf t, _)] =>
      match kindOfLiteral? t with
      | some kind => atomOfTrees kind [.leaf t]
      | none => typeOfAnnotated ts
    | _ => typeOfAnnotated ts

/-- The entries that one argument yields: bounds are an entry of their own after what they
bound. -/
def entriesOfArgument (ts : List WithArguments) : List TypeRef :=
  let ts := trimAnnotated ts
  if ts.isEmpty then []
  else
    let bounded := ts.takeWhile (!·.1.isSymbol ":")
    let bounds := ts.dropWhile (!·.1.isSymbol ":")
    if bounds.isEmpty then [simpleArgument ts]
    else [simpleArgument (trimAnnotated bounded), atomOfTrees .traitBounds (bounds.map (·.1))]

def entriesOfArguments (ts : List WithArguments) : List TypeRef :=
  (Text.cutAll (·.1.isSymbol ",") ts).flatMap entriesOfArgument

mutual
/-- The arguments that a tree lists: none unless it is an angle group. -/
def Tree.typeArguments : Tree → List TypeRef
  | .leaf _ => []
  | .group .angle _ body _ => entriesOfArguments (withTypeArguments body)
  | .group .. => []

def withTypeArguments : List Tree → List WithArguments
  | [] => []
  | t :: ts => (t, t.typeArguments) :: withTypeArguments ts
end

def TypeRef.ofTrees (ts : List Tree) : TypeRef := typeOfAnnotated (withTypeArguments ts)

/-! ### A type on its own -/

/-- The trees of the type that a text begins with: up to a semicolon or the conditions on it. -/
def leadingType (ts : List Tree) : List Tree :=
  trimComments (ts.takeWhile fun t => !(t.isSymbol ";" || t.isWord "where"))

/-- A text that holds no type at all begins with none, or with a lone lifetime. -/
def holdsNoType (ts : List Tree) : Bool :=
  match ts with
  | [] => true
  | [t] => t.isKind .lifetime
  | _ => false

def TypeRef.parse (s : String) : TypeRef :=
  let ts := leadingType (treesOfText s.toList)
  if holdsNoType ts then
    { text := normalizeType s, kind := .unknown, path := [], args := [] }
  else TypeRef.ofTrees ts

end AnchorHarness.Rust
