import AnchorHarness.Account.Field

/-!
# How a snapshot field gets its value

Every field of a snapshot is read from the next of a row of account slots, except a nested group,
which is left to be written by hand. A slot may be empty. What is done with the account in it
depends on the kind of the field.
-/

namespace AnchorHarness.Snapshot

open Account (Field Kind)

/-- A function that makes a typed account from a slot, and the type of its result. -/
structure Entry where
  returnType : String
  method : String
  deriving DecidableEq, Repr

/-- How a field gets its value. -/
inductive Mode where
  | typed (entry : Entry)
  | raw
  | unchecked
  | placeholder
  deriving DecidableEq, Repr

/-- How one field gets its value, and whether the account may be missing. -/
structure Step where
  field : String
  mode : Mode
  optional : Bool
  deriving DecidableEq, Repr

/-! ### Entries -/

def accountsModule : String := "anchor_lang::accounts"

def uncheckedMethod : String :=
  accountsModule ++ "::unchecked_account::UncheckedAccount::try_from"

def innerText (inner : Option String) : String := inner.getD "None"

def wrapperEntry (wrapper : String) (inner : Option String) : Entry :=
  let path := accountsModule ++ "::" ++ wrapper
  ⟨path ++ "<" ++ innerText inner ++ ">", path ++ "::try_from"⟩

/-- A kind of account that has no typed entry. -/
structure NoEntry where
  kind : Kind
  deriving DecidableEq, Repr

def NoEntry.message (e : NoEntry) : String := e.kind.label ++ " accounts have no typed deserializer"

def entryFor (f : Field) : Except NoEntry Entry :=
  match f.kind with
  | .systemAccount =>
    .ok ⟨"SystemAccount<'_>", accountsModule ++ "::system_account::SystemAccount::try_from"⟩
  | .sysvar =>
    .ok ⟨"Sysvar<" ++ innerText f.innerType ++ ">",
      accountsModule ++ "::sysvar::Sysvar::from_account_info"⟩
  | .signer => .ok ⟨"Signer<'_>", accountsModule ++ "::signer::Signer::try_from"⟩
  | .typedAccount =>
    .ok (wrapperEntry
      (if f.isInterface then "interface_account::InterfaceAccount" else "account::Account")
      f.innerType)
  | .accountLoader => .ok (wrapperEntry "account_loader::AccountLoader" f.innerType)
  | .program => .ok (wrapperEntry "program::Program" f.innerType)
  | .interface => .ok (wrapperEntry "interface::Interface" f.innerType)
  | kind => .error ⟨kind⟩

/-! ### Steps -/

def modeFor (f : Field) : Mode :=
  match entryFor f with
  | .ok entry => .typed entry
  | .error ⟨.composite⟩ => .placeholder
  | .error ⟨.rawHandle⟩ => .raw
  | .error _ => .unchecked

def stepFor (f : Field) : Step := ⟨f.name, modeFor f, f.isOptional⟩

def Step.consumesSlot (s : Step) : Bool := s.mode != .placeholder

def Mode.label : Mode → String
  | .typed _ => "typed"
  | .raw => "raw"
  | .unchecked => "unchecked"
  | .placeholder => "placeholder"

def Mode.returnType? : Mode → Option String
  | .typed entry => some entry.returnType
  | _ => none

def Mode.method? : Mode → Option String
  | .typed entry => some entry.method
  | .unchecked => some uncheckedMethod
  | _ => none

def fieldType (f : Field) : String :=
  let handle := if f.isRawHandle then "&'info " ++ f.accountType else f.accountType
  if f.isOptional then "Option<" ++ handle ++ ">" else handle

end AnchorHarness.Snapshot
