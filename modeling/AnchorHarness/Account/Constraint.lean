import AnchorHarness.Rust.Attribute
import AnchorHarness.Text.Cut

/-!
# Constraints on an account's life

An account field may be declared to be created or closed by the instruction, by the arguments
`init`, `init_if_needed` or `close` of its `account` attributes.
-/

namespace AnchorHarness.Account

/-- Whether an instruction creates or closes an account. -/
structure Lifecycle where
  hasInit : Bool
  hasClose : Bool
  deriving DecidableEq, Repr

def Lifecycle.steady : Lifecycle := ⟨false, false⟩

/-- What either of two declares. -/
def Lifecycle.join (a b : Lifecycle) : Lifecycle :=
  ⟨a.hasInit || b.hasInit, a.hasClose || b.hasClose⟩

/-- The name of an attribute's argument: what stands before its first equals sign. -/
def argumentKey (argument : String) : String :=
  String.ofList (Text.trim (argument.toList.takeWhile (· != '=')))

/-- What one argument of an `account` attribute declares. -/
def lifecycleOfKey (key : String) : Lifecycle :=
  ⟨key = "init" || key = "init_if_needed", key = "close"⟩

def lifecycleOfAttribute (text : String) : Lifecycle :=
  if Rust.attributePath text = "account" then
    ((Rust.attributeArguments text).map (lifecycleOfKey ∘ argumentKey)).foldl
      Lifecycle.join .steady
  else .steady

def lifecycle (attributes : List String) : Lifecycle :=
  (attributes.map lifecycleOfAttribute).foldl Lifecycle.join .steady

/-! ### Laws of joining -/

theorem Lifecycle.join_assoc (a b c : Lifecycle) : (a.join b).join c = a.join (b.join c) := by
  simp [Lifecycle.join, Bool.or_assoc]

theorem Lifecycle.join_comm (a b : Lifecycle) : a.join b = b.join a := by
  simp [Lifecycle.join, Bool.or_comm]

theorem Lifecycle.steady_join (a : Lifecycle) : Lifecycle.steady.join a = a := rfl

end AnchorHarness.Account
