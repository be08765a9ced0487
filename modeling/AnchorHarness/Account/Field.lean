/-!
# Account fields

A field of a context struct, once classified: what kind of account it holds, the type written for it
with and without its `Option` and `Box`, and what its attributes declare.
-/

namespace AnchorHarness.Account

/-- The kinds of account that a field may hold. -/
inductive Kind where
  | systemAccount
  | sysvar
  | signer
  | program
  | interface
  /-- An account with typed data, `Account` or `InterfaceAccount`. -/
  | typedAccount
  | accountLoader
  | uncheckedAccount
  /-- A bare `AccountInfo`. -/
  | rawHandle
  | composite
  deriving DecidableEq, Repr

def Kind.label : Kind → String
  | .systemAccount => "system_account"
  | .sysvar => "sysvar"
  | .signer => "signer"
  | .program => "program"
  | .interface => "interface"
  | .typedAccount => "typed_account"
  | .accountLoader => "account_loader"
  | .uncheckedAccount => "unchecked_account"
  | .rawHandle => "raw_handle"
  | .composite => "composite"

def Kind.all : List Kind :=
  [.systemAccount, .sysvar, .signer, .program, .interface, .typedAccount, .accountLoader,
    .uncheckedAccount, .rawHandle, .composite]

def Kind.ofLabel? (label : String) : Option Kind := Kind.all.find? fun k => k.label = label

theorem Kind.mem_all (k : Kind) : k ∈ Kind.all := by cases k <;> decide

theorem Kind.ofLabel?_label (k : Kind) : Kind.ofLabel? k.label = some k := by cases k <;> decide

/-- A classified field of a context struct. -/
structure Field where
  name : String
  /-- The type as written, wrappers included. -/
  declaredType : String
  /-- The type without `Option` and `Box`. -/
  accountType : String
  kind : Kind
  /-- The data type of a typed account, the name of a sysvar, and the like. -/
  innerType : Option String
  /-- The field is an `InterfaceAccount`, not an `Account`. -/
  isInterface : Bool
  declaredOptional : Bool
  isBoxed : Bool
  hasInit : Bool
  hasClose : Bool
  deriving DecidableEq, Repr

/-- The account may be missing from a snapshot. One that is created or closed cannot exist both
before and after the instruction. -/
def Field.isOptional (f : Field) : Bool := f.declaredOptional || f.hasInit || f.hasClose

def Field.isRawHandle (f : Field) : Bool := f.kind == .rawHandle

def Field.isComposite (f : Field) : Bool := f.kind == .composite

end AnchorHarness.Account
