import AnchorHarness.Proofs.Snapshot.Code
import AnchorHarness.Table

/-!
# What the code that fills a snapshot does

Evaluation of the code over a row of slots. A slot is empty or holds an account. An expression may
move the cursor on and may leave the function with a fault; a method whose receiver has the wrong
form, a name that is not bound and a cursor that was not opened are stuck, so that code which
evaluates to anything else is also formed as it should be.
-/

namespace AnchorHarness.Snapshot

variable {α κ β : Type}

/-! ### Values -/

/-- A value of the code. Accounts are of type `α` and have keys of type `κ`; the functions that make
typed accounts make ones of type `β`. -/
inductive Value (α κ β : Type) where
  | cursor
  | account (a : α)
  | unchecked (a : α)
  | typed (b : β)
  | key (k : κ)
  | truth (b : Bool)
  | fault (e : SlotFault)
  /-- The error of a function that makes typed accounts. -/
  | entryError
  | none
  | some (v : Value α κ β)
  | ok (v : Value α κ β)
  | err (v : Value α κ β)
  | marker

/-- Why the code ends without a struct. -/
inductive Stop where
  | left (e : SlotFault)
  | panicked (field : String)
  | stuck
  deriving DecidableEq

/-- What the code depends on besides the slots. -/
structure World (α κ β : Type) where
  key : α → κ
  constant : String → κ
  /-- What a function makes of an account, if it does not fail. -/
  entry : String → α → Option β
  /-- What stands at a field that is left to be written by hand; a `todo!()` panics. -/
  manual : String → Except Stop (Value α κ β)

/-- Names with their values, the newest first. -/
abbrev Environment (α κ β : Type) := Table String (Value α κ β)

/-- The slots that the cursor has before it, once it is open. -/
abbrev Cursor (α : Type) := Option (List (Option α))

def Value.ofSlot : Option α → Value α κ β
  | .some a => .some (.account a)
  | .none => .none

/-- A call of a function on an account. Only the one that makes unchecked accounts cannot fail. -/
def World.call (w : World α κ β) (path : String) : Value α κ β → Except Stop (Value α κ β)
  | .account a =>
    if path = uncheckedMethod then .ok (.unchecked a)
    else match w.entry path a with
      | .some b => .ok (.ok (.typed b))
      | .none => .ok (.err .entryError)
  | _ => .error .stuck

/-! ### Expressions -/

variable [DecidableEq κ]

/-- The value of an expression, and the cursor after it. -/
def Expression.eval (w : World α κ β) :
    Expression → Environment α κ β → Cursor α → Except Stop (Value α κ β × Cursor α)
  | .cursor, _, c => if c.isSome then .ok (.cursor, c) else .error .stuck
  | .variable name, env, c =>
    match Table.find? name env with
    | .some v => .ok (v, c)
    | .none => .error .stuck
  | .constant path, _, c => .ok (.key (w.constant path), c)
  | .fault e, _, c => .ok (.fault e, c)
  | .absent, _, c => .ok (.none, c)
  | .success e, env, c => do
    let (v, c) ← e.eval w env c
    .ok (.ok v, c)
  | .failure e, env, c => do
    let (v, c) ← e.eval w env c
    .ok (.err v, c)
  | .key account, env, c => do
    match ← account.eval w env c with
    | (.account a, c) => .ok (.key (w.key a), c)
    | _ => .error .stuck
  | .differ a b, env, c => do
    let (u, c) ← a.eval w env c
    let (v, c) ← b.eval w env c
    match u, v with
    | .key k, .key l => .ok (.truth (k ≠ l), c)
    | _, _ => .error .stuck
  | .call path argument, env, c => do
    let (v, c) ← argument.eval w env c
    .ok (← w.call path v, c)
  | .choose condition yes no, env, c => do
    match ← condition.eval w env c with
    | (.truth true, c) => yes.eval w env c
    | (.truth false, c) => no.eval w env c
    | _ => .error .stuck
  | .matchFault e kind thisKind name other, env, c => do
    match ← e.eval w env c with
    | (.fault f, c) =>
      if f.kind = kind then thisKind.eval w env c
      else other.eval w ((name, .fault f) :: env) c
    | _ => .error .stuck
  | .braces e, env, c => e.eval w env c
  | .next receiver, env, c => do
    match ← receiver.eval w env c with
    | (.cursor, .some []) => .ok (.none, .some [])
    | (.cursor, .some (slot :: slots)) => .ok (.some (.ofSlot slot), .some slots)
    | _ => .error .stuck
  | .asRef receiver, env, c => do
    match ← receiver.eval w env c with
    | (.none, c) => .ok (.none, c)
    | (.some v, c) => .ok (.some v, c)
    | _ => .error .stuck
  | .okOr receiver error, env, c => do
    let (v, c) ← receiver.eval w env c
    let (e, c) ← error.eval w env c
    match v with
    | .some v => .ok (.ok v, c)
    | .none => .ok (.err e, c)
    | _ => .error .stuck
  | .transpose receiver, env, c => do
    match ← receiver.eval w env c with
    | (.none, c) => .ok (.ok .none, c)
    | (.some (.ok v), c) => .ok (.ok (.some v), c)
    | (.some (.err e), c) => .ok (.err e, c)
    | _ => .error .stuck
  | .leaveOnError e, env, c => do
    match ← e.eval w env c with
    | (.ok v, c) => .ok (v, c)
    | (.err (.fault f), _) => .error (.left f)
    | _ => .error .stuck
  | .mapPath receiver path, env, c => do
    match ← receiver.eval w env c with
    | (.none, c) => .ok (.none, c)
    | (.some v, c) => .ok (.some (← w.call path v), c)
    | _ => .error .stuck
  | .map receiver parameter body, env, c => do
    match ← receiver.eval w env c with
    | (.none, c) => .ok (.none, c)
    | (.some v, c) => do
      let (r, c) ← body.eval w ((parameter, v) :: env) c
      .ok (.some r, c)
    | _ => .error .stuck
  | .filter receiver parameter body, env, c => do
    match ← receiver.eval w env c with
    | (.none, c) => .ok (.none, c)
    | (.some v, c) => do
      match ← body.eval w ((parameter, v) :: env) c with
      | (.truth true, c) => .ok (.some v, c)
      | (.truth false, c) => .ok (.none, c)
      | _ => .error .stuck
    | _ => .error .stuck
  | .mapErr receiver parameter body, env, c => do
    match ← receiver.eval w env c with
    | (.ok v, c) => .ok (.ok v, c)
    | (.err e, c) => do
      let (r, c) ← body.eval w ((parameter, e) :: env) c
      .ok (.err r, c)
    | _ => .error .stuck
  | .orElse receiver parameter body, env, c => do
    match ← receiver.eval w env c with
    | (.ok v, c) => .ok (.ok v, c)
    | (.err e, c) => body.eval w ((parameter, e) :: env) c
    | _ => .error .stuck

/-! ### Commands -/

abbrev Record (α κ β : Type) := List (String × Value α κ β)

/-- A field of a struct that is built from the variable of its name. -/
def shorthand (env : Environment α κ β) (name : String) : Except Stop (String × Value α κ β) :=
  match Table.find? name env with
  | .some v => .ok (name, v)
  | .none => .error .stuck

/-- The struct that code builds over a row of slots. -/
def run (w : World α κ β) (slots : List (Option α)) :
    List Command → Environment α κ β → Cursor α → Except Stop (Record α κ β)
  | [], _, _ => .error .stuck
  | .openCursor :: code, env, _ => run w slots code env (.some slots)
  | .bind field _ value :: code, env, c => do
    let (v, c) ← value.eval w env c
    run w slots code ((field, v) :: env) c
  | .bindTodo field :: code, env, c => do
    let v ← w.manual field
    run w slots code ((field, v) :: env) c
  | .build fields :: _, env, _ => fields.mapM (shorthand env)
  | .buildEmpty :: _, _, _ => .ok [("_marker", .marker)]

end AnchorHarness.Snapshot
