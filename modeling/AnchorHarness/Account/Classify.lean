import AnchorHarness.Account.Constraint
import AnchorHarness.Account.Field
import AnchorHarness.Rust.TypeRef

/-!
# Classifying account fields

A field's kind is decided by the last segment of its type's path, after one `Option` and then one
`Box` have been taken off. A path that ends in no known wrapper is a nested group of accounts. A
known wrapper of the wrong shape, and a type that is no path at all, cannot be classified.
-/

namespace AnchorHarness.Account

open Rust (TypeRef TypeKind)

/-- Why a type cannot be classified. -/
inductive Unsupported where
  | notAPath (kind : TypeKind)
  | argumentCount (wrapper : String)
  | unknownSysvar (inner : String)
  deriving DecidableEq, Repr

def Unsupported.message : Unsupported → String
  | .notAPath kind => "expected a type path, found " ++ kind.label
  | .argumentCount wrapper => wrapper ++ " takes exactly one type argument"
  | .unknownSysvar inner => "unknown sysvar " ++ inner

def sysvars : List String :=
  ["Clock", "Rent", "EpochSchedule", "Fees", "RecentBlockhashes", "SlotHashes", "SlotHistory",
    "StakeHistory", "Instructions", "Rewards"]

/-- What a wrapper holds: its kind, and whether it takes a type argument. -/
def wrapper? : String → Option (Kind × Bool)
  | "SystemAccount" => some (.systemAccount, false)
  | "Sysvar" => some (.sysvar, true)
  | "Signer" => some (.signer, false)
  | "Program" => some (.program, true)
  | "Interface" => some (.interface, true)
  | "Account" => some (.typedAccount, true)
  | "InterfaceAccount" => some (.typedAccount, true)
  | "AccountLoader" => some (.accountLoader, true)
  | "UncheckedAccount" => some (.uncheckedAccount, false)
  | "AccountInfo" => some (.rawHandle, false)
  | _ => none

/-- The only type argument of a wrapper with the given name. -/
def unwrap? (wrapper : String) (ty : TypeRef) : Option TypeRef :=
  if ty.ident = some wrapper then
    match ty.typeArgs with
    | [inner] => some inner
    | _ => none
  else none

/-- What the type says of an account: everything but the field's name and attributes. -/
structure Shape where
  kind : Kind
  innerType : Option String
  isInterface : Bool
  deriving DecidableEq, Repr

def innerType (ty : TypeRef) (ident : String) (kind : Kind) : Except Unsupported String :=
  match ty.typeArgs with
  | [inner] =>
    if kind = .sysvar then
      match inner.ident with
      | some name => if sysvars.contains name then .ok name else .error (.unknownSysvar inner.text)
      | none => .error (.unknownSysvar inner.text)
    else .ok inner.text
  | _ => .error (.argumentCount ident)

/-- The shape of a type without `Option` and `Box`. -/
def shapeOfType (ty : TypeRef) : Except Unsupported Shape :=
  match ty.ident with
  | none => .error (.notAPath ty.kind)
  | some ident =>
    match wrapper? ident with
    | none => .ok ⟨.composite, none, false⟩
    | some (kind, takesType) =>
      if takesType then
        (innerType ty ident kind).map fun inner => ⟨kind, some inner, ident = "InterfaceAccount"⟩
      else .ok ⟨kind, none, ident = "InterfaceAccount"⟩

def classify (name : String) (declared : TypeRef) (attributes : List String) :
    Except Unsupported Field :=
  let life := lifecycle attributes
  let present := (unwrap? "Option" declared).getD declared
  let account := (unwrap? "Box" present).getD present
  (shapeOfType account).map fun shape =>
    { name
      declaredType := declared.text
      accountType := account.text
      kind := shape.kind
      innerType := shape.innerType
      isInterface := shape.isInterface
      declaredOptional := (unwrap? "Option" declared).isSome
      isBoxed := (unwrap? "Box" present).isSome
      hasInit := life.hasInit
      hasClose := life.hasClose }

end AnchorHarness.Account
