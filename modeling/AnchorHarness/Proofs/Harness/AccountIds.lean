import AnchorHarness.Proofs.FieldOrder
import AnchorHarness.Proofs.Harness.Registry

/-!
# Roles and the accounts of instructions

Where the structs of the instructions hold an account by its id, the name of the field is a role, and
every role comes from such a field. The registry is written out role by role in the order of the
names, so it depends on neither the order of what the program has nor that of the bindings.
-/

namespace AnchorHarness.Harness

open FieldOrder (braced declarationsOf_structsOf)
open Program (ProgramIdl Instruction AccountGroup)
open Text (indent)

/-! ### Names of accounts and addresses -/

/-- An account or an address parameter of some instruction has the name. -/
def IsNamed (p : ProgramIdl) (role : String) : Prop :=
  ∃ ix ∈ p.instructions, (∃ f ∈ ix.2.fields, f.name = role) ∨
    ∃ type, (role, type) ∈ ix.1.parameters ∧ isAddressType type = true

theorem mem_rolesOf_iff (p : ProgramIdl) (role : String) : role ∈ rolesOf p ↔ IsNamed p role := by
  simp [rolesOf, IsNamed, rolesOfInstruction]

/-- The name labels a field to which the harness assigns the id of an account: a field in the struct
of the accounts of an instruction, or one in the struct of its data whose parameter is declared with
another type. -/
def IsAssigned (bindings : Bindings) (p : ProgramIdl) (role : String) : Prop :=
  ∃ (place : Nat) (ix : Instruction × AccountGroup), p.instructions[place]? = some ix ∧
    ((∃ fields, (declarationsOf bindings p)[3 * place + 2]? =
          some (.struct (ix.1.typeName ++ "Accounts") fields) ∧ (role, accountId) ∈ fields) ∨
      ∃ fields, (declarationsOf bindings p)[3 * place + 3]? =
          some (.struct (ix.1.typeName ++ "Data") fields) ∧
        ∃ (i : Nat) (type : String), ix.1.parameters[i]? = some (role, type) ∧
          fields[i]? = some (role, accountId) ∧ type ≠ accountId)

theorem isAddressType_accountId : isAddressType accountId = false := by
  have trees : Rust.treesOfText accountId.toList = [.leaf ⟨[], .word, accountId.toList⟩] := by cbv
  unfold isAddressType Rust.TypeRef.parse
  rw [trees]
  rfl

theorem dataType_eq_accountId_iff {type : String} (h : type ≠ accountId) :
    dataType type = accountId ↔ isAddressType type = true := by
  unfold dataType
  split
  · next ha => simp [ha]
  · next ha => simp [ha, h]

theorem ne_accountId_of_isAddressType {type : String} (h : isAddressType type = true) :
    type ≠ accountId := by
  rintro rfl
  rw [isAddressType_accountId] at h
  cases h

theorem isAssigned_iff (bindings : Bindings) (p : ProgramIdl) (role : String) :
    IsAssigned bindings p role ↔ IsNamed p role := by
  have accounts (place : Nat) (ix : Instruction × AccountGroup)
      (hp : p.instructions[place]? = some ix) : (declarationsOf bindings p)[3 * place + 2]? =
        some (.struct (ix.1.typeName ++ "Accounts") (ix.2.fields.map fun f => (f.name, accountId))) :=
    declarationsOf_structsOf bindings p place ix hp (i := 1) (by decide)
  have data (place : Nat) (ix : Instruction × AccountGroup)
      (hp : p.instructions[place]? = some ix) : (declarationsOf bindings p)[3 * place + 3]? =
        some (.struct (ix.1.typeName ++ "Data")
          (ix.1.parameters.map fun parameter => (parameter.1, dataType parameter.2))) :=
    declarationsOf_structsOf bindings p place ix hp (i := 2) (by decide)
  constructor
  · rintro ⟨place, ix, hp, ⟨fields, hf, hr⟩ | ⟨fields, hf, i, type, hi, hr, foreign⟩⟩
    · rw [accounts place ix hp] at hf
      cases hf
      obtain ⟨f, hf, he⟩ := List.mem_map.mp hr
      exact ⟨ix, List.mem_of_getElem? hp, .inl ⟨f, hf, (Prod.mk.inj he).1⟩⟩
    · rw [data place ix hp] at hf
      cases hf
      rw [List.getElem?_map, hi, Option.map_some, Option.some.injEq, Prod.mk.injEq] at hr
      have address := (dataType_eq_accountId_iff foreign).mp hr.2
      exact ⟨ix, List.mem_of_getElem? hp, .inr ⟨type, List.mem_of_getElem? hi, address⟩⟩
  · rintro ⟨ix, hix, named⟩
    obtain ⟨place, hp⟩ := List.mem_iff_getElem?.mp hix
    refine ⟨place, ix, hp, ?_⟩
    obtain ⟨f, hf, rfl⟩ | ⟨type, ht, address⟩ := named
    · exact .inl ⟨_, accounts place ix hp, List.mem_map_of_mem hf⟩
    · obtain ⟨i, hi⟩ := List.mem_iff_getElem?.mp ht
      have foreign := ne_accountId_of_isAddressType address
      refine .inr ⟨_, data place ix hp, i, type, hi, ?_, foreign⟩
      rw [List.getElem?_map, hi, Option.map_some, (dataType_eq_accountId_iff foreign).mpr address]

/-! ### Order -/

/-- The same instructions in another order, each with its parameters and its accounts in another
order. -/
def Reordered (p q : ProgramIdl) : Prop :=
  ∃ instructions, List.Forall₂ (fun a b => a.1.parameters.Perm b.1.parameters ∧
      a.2.fields.Perm b.2.fields) p.instructions instructions ∧ instructions.Perm q.instructions

theorem rolesOfInstruction_perm {a b : Instruction × AccountGroup}
    (parameters : a.1.parameters.Perm b.1.parameters) (fields : a.2.fields.Perm b.2.fields) :
    (rolesOfInstruction a).Perm (rolesOfInstruction b) :=
  (fields.map _).append ((parameters.filter _).map _)

theorem Reordered.rolesOf_perm {p q : ProgramIdl} (h : Reordered p q) :
    (rolesOf p).Perm (rolesOf q) := by
  obtain ⟨instructions, inner, outer⟩ := h
  have same {as bs : List (Instruction × AccountGroup)}
      (h : List.Forall₂ (fun a b => a.1.parameters.Perm b.1.parameters ∧
        a.2.fields.Perm b.2.fields) as bs) :
      (as.flatMap rolesOfInstruction).Perm (bs.flatMap rolesOfInstruction) := by
    induction h with
    | nil => exact .refl _
    | cons hab _ ih => exact (rolesOfInstruction_perm hab.1 hab.2).append ih
  exact (same inner).trans (outer.flatMap_right rolesOfInstruction)

/-! ### The text -/

def storageText : Option Strategy → String
  | some strategy => strategy.label
  | none => placeholder

/-- The lines of the accounts of the fuzzer around those of the roles. -/
def registryLines (fields : List String) : List String :=
  [ "/// Use AccountsStorage<T> where T can be one of:",
    "/// " ++ strategyNames,
    "#[derive(Default)]" ] ++
  braced "pub struct FuzzAccounts" fields ++
  [ "",
    "impl FuzzAccounts \x7b",
    indent ++ "pub fn new() -> Self \x7b",
    indent ++ indent ++ "Default::default()",
    indent ++ "\x7d",
    "\x7d" ]

theorem storageLines_registryOf (bindings : Bindings) (p : ProgramIdl) :
    storageLines (registryOf bindings p) =
      registryLines ((registryOf bindings p).roles.map fun role =>
        indent ++ role ++ ": AccountsStorage<" ++ storageText (strategyOf role bindings) ++ ">,") := by
  have line (e : Entry) : roleLine e =
      indent ++ e.1 ++ ": AccountsStorage<" ++ storageText e.2 ++ ">," := by
    obtain ⟨role, strategy⟩ := e
    cases strategy <;> rfl
  have entries : (registryOf bindings p).entries.map roleLine =
      (registryOf bindings p).roles.map fun role =>
        indent ++ role ++ ": AccountsStorage<" ++ storageText (strategyOf role bindings) ++ ">," := by
    rw [entries_registryOf, List.map_map]
    exact List.map_congr_left fun role _ => line (role, strategyOf role bindings)
  have empty : (registryOf bindings p).entries.isEmpty =
      ((registryOf bindings p).entries.map roleLine).isEmpty := List.isEmpty_map.symm
  rw [storageLines, registryLines, empty, entries]
  rfl

/-! ### The registry -/

/-- The code of a program ends with the accounts of the fuzzer. -/
theorem declarationsOf_eq_append_storage (bindings : Bindings) (p : ProgramIdl) :
    ∃ front, declarationsOf bindings p = front ++ [.storage (registryOf bindings p)] ∧
      ∀ r, .storage r ∉ front := by
  refine ⟨.choice (p.instructions.map fun ix => ix.1.typeName) ::
    (p.instructions.flatMap structsOf ++
      p.instructions.map fun ix => .operations (operationsOf ix)), by simp [declarationsOf], ?_⟩
  intro r there
  simp [structsOf] at there

theorem storageLines_congr {r s : RoleRegistry} (h : r.entries = s.entries) :
    storageLines r = storageLines s := by
  rw [storageLines, storageLines, h]

/-- The roles are the names of the accounts and the addresses of all instructions, each once and in
order, and these are the names that an account's id is assigned to. There is a line for each role,
whatever the order of the instructions, of what they have, and of the bindings. -/
theorem registryOf_accountIds (bindings : Bindings) (p : ProgramIdl) :
    (registryOf bindings p).roles.Pairwise (· < ·) ∧
      (∀ role, role ∈ (registryOf bindings p).roles ↔ IsNamed p role) ∧
      (∀ role, role ∈ (registryOf bindings p).roles ↔ IsAssigned bindings p role) ∧
      (∃ front, declarationsOf bindings p = front ++ [.storage (registryOf bindings p)] ∧
        ∀ r, .storage r ∉ front) ∧
      storageLines (registryOf bindings p) =
        registryLines ((registryOf bindings p).roles.map fun role =>
          indent ++ role ++ ": AccountsStorage<" ++ storageText (strategyOf role bindings) ++
            ">,") ∧
      ∀ other q, (bindings.map Prod.fst).Nodup → bindings.Perm other → Reordered p q →
        storageLines (registryOf other q) = storageLines (registryOf bindings p) := by
  have named (role : String) : role ∈ (registryOf bindings p).roles ↔ IsNamed p role := by
    rw [mem_roles_registryOf, mem_rolesOf_iff]
  refine ⟨pairwise_roles _, named, fun role => ?_, declarationsOf_eq_append_storage bindings p,
    storageLines_registryOf bindings p, ?_⟩
  · rw [named, isAssigned_iff]
  · intro other q distinct bound reordered
    refine storageLines_congr (entries_registryOf_congr (fun role => ?_) fun role => ?_)
    · exact reordered.rolesOf_perm.symm.mem_iff
    · exact (strategyOf_perm bound distinct role).symm

def signerField (name : String) : Account.Field :=
  ⟨name, "Signer<'info>", "Signer<'info>", .signer, none, false, false, false, false, false⟩

def opening : Instruction := ⟨"open", [("owner", "Pubkey"), ("amount", "u64")]⟩

def ledger : ProgramIdl :=
  ⟨"ledger", none,
    [(opening, ⟨"Open", "Open<'info>", [signerField "payer", signerField "book"]⟩),
      (⟨"close", []⟩, ⟨"Close", "Close<'info>", [signerField "book"]⟩)]⟩

/-- The same program, turned around. -/
def turnedLedger : ProgramIdl :=
  ⟨"ledger", none,
    [(⟨"close", []⟩, ⟨"Close", "Close<'info>", [signerField "book"]⟩),
      ({ opening with parameters := [("amount", "u64"), ("owner", "Pubkey")] },
        ⟨"Open", "Open<'info>", [signerField "book", signerField "payer"]⟩)]⟩

theorem reordered_ledger : Reordered ledger turnedLedger := by
  refine ⟨turnedLedger.instructions.reverse, ?_, List.reverse_perm _⟩
  refine .cons ⟨List.Perm.swap _ _ _, List.Perm.swap _ _ _⟩ (.cons ⟨.refl _, .refl _⟩ .nil)

/-- Turned around, with its bindings turned around, a program has the same lines. -/
theorem registryOf_accountIds_ledger :
    Reordered ledger turnedLedger ∧
      storageLines (registryOf [("owner", .keypair), ("book", .pdaStore)] turnedLedger) =
        storageLines (registryOf [("book", .pdaStore), ("owner", .keypair)] ledger) := by
  obtain ⟨-, -, -, -, -, same⟩ :=
    registryOf_accountIds [("book", .pdaStore), ("owner", .keypair)] ledger
  exact ⟨reordered_ledger, same _ _ (by decide) (List.Perm.swap _ _ _) reordered_ledger⟩

end AnchorHarness.Harness
