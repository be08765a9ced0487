import AnchorHarness.Table
import AnchorHarness.Text.Blank
import AnchorHarness.Text.Cut

/-!
# Storage of accounts

The fuzzer keeps the accounts of one role in one of five kinds of store. Which one, a user says in
bindings of the form `ROLE=STRATEGY`.
-/

namespace AnchorHarness.Harness

/-- How the fuzzer stores the accounts of a role. -/
inductive Strategy where
  | keypair
  | pdaStore
  | tokenStore
  | mintStore
  | programStore
  deriving DecidableEq, Repr

def Strategy.label : Strategy → String
  | .keypair => "Keypair"
  | .pdaStore => "PdaStore"
  | .tokenStore => "TokenStore"
  | .mintStore => "MintStore"
  | .programStore => "ProgramStore"

/-- All strategies, in the order in which they are offered. -/
def Strategy.all : List Strategy := [.keypair, .pdaStore, .tokenStore, .mintStore, .programStore]

theorem Strategy.mem_all (s : Strategy) : s ∈ Strategy.all := by cases s <;> decide

/-- What can be wrong with a binding. -/
inductive StorageError where
  | unknownStrategy (text : String)
  | notABinding (text : String)
  deriving DecidableEq, Repr

def strategyNames : String := ", ".intercalate (Strategy.all.map Strategy.label)

def StorageError.message : StorageError → String
  | .unknownStrategy text =>
    "Unknown storage strategy: " ++ text ++ " (expected one of " ++ strategyNames ++ ")"
  | .notABinding text => "Expected ROLE=STRATEGY, got: " ++ text

/-! ### Reading -/

/-- The small letter of ASCII that a character has as its lower case, if there is one; else the
character. Besides the capitals of ASCII the Kelvin sign U+212A has one. -/
def foldCase (c : Char) : Char := if c.toNat = 0x212A then 'k' else c.toLower

/-- What is compared in the name of a strategy: neither underscores and hyphens nor case. -/
def strategyKey (cs : List Char) : List Char :=
  (cs.filter fun c => !(c = '_' || c = '-')).map foldCase

/-- Reads the name of a strategy in any case, with or without separators. -/
def Strategy.parse (text : String) : Except StorageError Strategy :=
  match Strategy.all.find? fun s => strategyKey s.label.toList = strategyKey text.toList with
  | some s => .ok s
  | none => .error (.unknownStrategy text)

/-- Roles with their strategies, in the order in which the roles were first bound. -/
abbrev Bindings := Table String Strategy

/-- Reads one binding, split at its first equals sign. -/
def parseBinding (text : String) : Except StorageError (String × Strategy) :=
  match Text.cutFirst '=' text.toList with
  | none => .error (.notABinding text)
  | some (role, strategy) =>
    (Strategy.parse (String.ofList (Text.trim strategy))).map fun s =>
      (String.ofList (Text.trim role), s)

/-- Reads bindings in order; the first that is wrong decides. -/
def parseBindings (texts : List String) : Except StorageError Bindings :=
  texts.foldlM (fun b text => (parseBinding text).map fun (role, s) => Table.put role s b) []

end AnchorHarness.Harness
