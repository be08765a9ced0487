import AnchorHarness.Harness.Storage
import AnchorHarness.Program.Idl

/-!
# Account roles

A role is a name that accounts of the fuzzer go by: the name of an account of some instruction, or
of a parameter that is an address. The registry keeps the roles in the order of their names, each
with the strategy that it is bound to, if it is bound.
-/

namespace AnchorHarness.Harness

open Program (ProgramIdl Instruction AccountGroup)
open Rust (TypeRef)

/-! ### The registry -/

abbrev Entry := String × Option Strategy

/-- Entries in the order of their names, without repetition. -/
def Ordered (entries : List Entry) : Prop := entries.Pairwise fun a b => a.1 < b.1

/-- Puts an unbound role into its place; a role that is there stays as it is. -/
def insertEntry (role : String) : List Entry → List Entry
  | [] => [(role, none)]
  | e :: rest =>
    if role < e.1 then (role, none) :: e :: rest
    else if role = e.1 then e :: rest
    else e :: insertEntry role rest

def bindEntry (role : String) (strategy : Strategy) (entries : List Entry) : List Entry :=
  entries.map fun e => if e.1 = role then (e.1, some strategy) else e

theorem mem_insertEntry {role : String} {e : Entry} {entries : List Entry}
    (h : e ∈ insertEntry role entries) : e = (role, none) ∨ e ∈ entries := by
  induction entries with
  | nil => simpa [insertEntry] using h
  | cons f rest ih =>
    rw [insertEntry] at h
    split at h
    · simpa using h
    · split at h
      · exact .inr h
      · rcases List.mem_cons.1 h with h | h
        · exact .inr (h ▸ List.mem_cons_self)
        · exact (ih h).imp id (List.mem_cons_of_mem f)

theorem ordered_insertEntry (role : String) {entries : List Entry} (h : Ordered entries) :
    Ordered (insertEntry role entries) := by
  induction entries with
  | nil => exact List.pairwise_singleton _ _
  | cons f rest ih =>
    have hf := List.pairwise_cons.1 h
    rw [insertEntry]
    split
    · next hlt =>
      refine List.pairwise_cons.2 ⟨fun e he => ?_, h⟩
      rcases List.mem_cons.1 he with rfl | he
      · exact hlt
      · exact String.lt_trans hlt (hf.1 e he)
    · next hlt =>
      split
      · exact h
      · next hne =>
        refine List.pairwise_cons.2 ⟨fun e he => ?_, ih hf.2⟩
        rcases mem_insertEntry he with rfl | he
        · exact Std.lt_of_le_of_ne (Std.not_lt.1 hlt) (Ne.symm hne)
        · exact hf.1 e he

theorem ordered_bindEntry (role : String) (strategy : Strategy) {entries : List Entry}
    (h : Ordered entries) : Ordered (bindEntry role strategy entries) := by
  rw [Ordered, bindEntry, List.pairwise_map]
  refine h.imp fun {a b} hab => ?_
  split <;> split <;> exact hab

/-- The roles of a harness. -/
structure RoleRegistry where
  entries : List Entry
  ordered : Ordered entries

/-- A role that is not in the registry. -/
structure UnknownRole where
  role : String
  deriving DecidableEq, Repr

def UnknownRole.message (e : UnknownRole) : String := "Unknown account role: " ++ e.role

namespace RoleRegistry

def empty : RoleRegistry := ⟨[], List.Pairwise.nil⟩

def contains (r : RoleRegistry) (role : String) : Bool := r.entries.any fun e => e.1 = role

/-- Adds a role, unbound unless it is there already. -/
def add (r : RoleRegistry) (role : String) : RoleRegistry :=
  ⟨insertEntry role r.entries, ordered_insertEntry role r.ordered⟩

def bind (r : RoleRegistry) (role : String) (strategy : Strategy) :
    Except UnknownRole RoleRegistry :=
  if r.contains role then
    .ok ⟨bindEntry role strategy r.entries, ordered_bindEntry role strategy r.ordered⟩
  else .error ⟨role⟩

/-- Binds a role if it is in the registry. -/
def bindIfPresent (r : RoleRegistry) (binding : String × Strategy) : RoleRegistry :=
  match r.bind binding.1 binding.2 with
  | .ok bound => bound
  | .error _ => r

/-- The roles in order. -/
def roles (r : RoleRegistry) : List String := r.entries.map (·.1)

def size (r : RoleRegistry) : Nat := r.entries.length

end RoleRegistry

/-! ### Roles of a program -/

/-- The type is the address type, under any path but without arguments. -/
def isAddressType (text : String) : Bool :=
  let ty := TypeRef.parse text
  ty.isPlainPath && ty.ident == some "Pubkey"

/-- The roles of one instruction: its accounts, then its parameters that are addresses. -/
def rolesOfInstruction (p : Instruction × AccountGroup) : List String :=
  p.2.fields.map (·.name) ++
    (p.1.parameters.filter fun (_, type) => isAddressType type).map (·.1)

/-- The roles of a program, each bound as far as the bindings name it. -/
def registryOf (bindings : Bindings) (p : ProgramIdl) : RoleRegistry :=
  bindings.foldl RoleRegistry.bindIfPresent
    ((p.instructions.flatMap rolesOfInstruction).foldl RoleRegistry.add RoleRegistry.empty)

end AnchorHarness.Harness
