import AnchorHarness.Snapshot.Step
import AnchorHarness.Text.Lines

/-!
# Statements that fill a snapshot

The generated code binds each field by one statement: the next slot of the row, and a chain of
method calls on it. The chains are kept as data, one constructor for each call that occurs in them;
`Statement.lines` writes them out.
-/

namespace AnchorHarness.Snapshot

open Text (indent endStatement)

/-- The faults that generated code reports. -/
inductive FaultKind where
  | notEnoughAccounts
  | accountNotFound
  | cannotDeserializeAccount
  | optionalAccountNotProvided
  deriving DecidableEq, Repr

def FaultKind.label : FaultKind → String
  | .notEnoughAccounts => "NotEnoughAccounts"
  | .accountNotFound => "AccountNotFound"
  | .cannotDeserializeAccount => "CannotDeserializeAccount"
  | .optionalAccountNotProvided => "OptionalAccountNotProvided"

/-- A fault at a field. -/
structure SlotFault where
  kind : FaultKind
  field : String
  deriving DecidableEq, Repr

def SlotFault.text (e : SlotFault) : String :=
  "FuzzingError::" ++ e.kind.label ++ "(\"" ++ e.field ++ "\".to_string())"

/-- A call in the chain that binds a field. -/
inductive Link where
  /-- The next slot, if there is one. -/
  | next
  /-- Leaves with a fault if nothing is there. -/
  | orFault (fault : SlotFault)
  /-- The account in the slot, if there is one. -/
  | asRef
  | dropSentinel
  | apply (method : String)
  /-- Leaves with a fault if the function failed. -/
  | failWith (fault : SlotFault)
  /-- Applies a function unless the account stands for "not provided", which is a fault of its
  own. -/
  | applyProvided (method : String) (failed missing : SlotFault)
  /-- A result of a value that may be missing, for a value that may be missing of a result. -/
  | transpose
  /-- Turns the fault of an account that is not provided into a missing value, and leaves with any
  other fault. -/
  | forgiveMissing
  deriving DecidableEq, Repr

/-- The statement that binds a field. -/
inductive Statement where
  | todo (field : String)
  | bind (field : String) (declared : Option String) (links : List Link)
  deriving DecidableEq, Repr

/-! ### Chains -/

def nextAccount (field : String) : List Link :=
  [.next, .orFault ⟨.notEnoughAccounts, field⟩, .asRef]

def required (field : String) : Link := .orFault ⟨.accountNotFound, field⟩

def statementFor (s : Step) : Statement :=
  match s.mode, s.optional with
  | .placeholder, _ => .todo s.field
  | .raw, true => .bind s.field none (nextAccount s.field ++ [.dropSentinel])
  | .raw, false => .bind s.field none (nextAccount s.field ++ [required s.field])
  | .unchecked, true =>
    .bind s.field none (nextAccount s.field ++ [.dropSentinel, .apply uncheckedMethod])
  | .unchecked, false =>
    .bind s.field none (nextAccount s.field ++ [.apply uncheckedMethod, required s.field])
  | .typed entry, false =>
    .bind s.field (some entry.returnType)
      (nextAccount s.field ++
        [.apply entry.method, required s.field, .failWith ⟨.cannotDeserializeAccount, s.field⟩])
  | .typed entry, true =>
    .bind s.field (some ("Option<" ++ entry.returnType ++ ">"))
      (nextAccount s.field ++
        [.applyProvided entry.method ⟨.cannotDeserializeAccount, s.field⟩
          ⟨.optionalAccountNotProvided, s.field⟩, .transpose, .forgiveMissing])

/-! ### Text -/

/-- The lines of a call; `sentinel` is the key that stands for "not provided". -/
def Link.lines (sentinel : String) : Link → List String
  | .next => [".next()"]
  | .orFault fault => [".ok_or(" ++ fault.text ++ ")?"]
  | .asRef => [".as_ref()"]
  | .dropSentinel => [".filter(|acc| acc.key() != " ++ sentinel ++ ")"]
  | .apply method => [".map(" ++ method ++ ")"]
  | .failWith fault => [".map_err(|_| " ++ fault.text ++ ")?"]
  | .applyProvided method failed missing =>
    [ ".map(|acc| \x7b",
      indent ++ "if acc.key() != " ++ sentinel ++ " \x7b",
      indent ++ indent ++ method ++ "(acc)",
      indent ++ indent ++ indent ++ ".map_err(|_| " ++ failed.text ++ ")",
      indent ++ "\x7d else \x7b",
      indent ++ indent ++ "Err(" ++ missing.text ++ ")",
      indent ++ "\x7d",
      "\x7d)" ]
  | .transpose => [".transpose()"]
  | .forgiveMissing =>
    [ ".or_else(|e| match e \x7b",
      indent ++ "FuzzingError::" ++ FaultKind.optionalAccountNotProvided.label ++
        "(_) => Ok(None),",
      indent ++ "e => Err(e),",
      "\x7d)?" ]

def Statement.lines (sentinel : String) : Statement → List String
  | .todo field => ["let " ++ field ++ " = todo!();"]
  | .bind field declared links =>
    let type := match declared with
      | some t => ": " ++ t
      | none => ""
    endStatement
      (("let " ++ field ++ type ++ " = accounts_iter") ::
        (links.flatMap (Link.lines sentinel)).map (indent ++ ·))

end AnchorHarness.Snapshot
