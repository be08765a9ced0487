import AnchorHarness.Proofs.GeneratedTypes.Fit
import Mathlib.Data.List.Pairwise
import Mathlib.Data.List.Perm.Basic

/-!
# Names that clash

The names of generated types are made from the type names of the instructions by adding an ending.
The snapshot types of several programs stand in one text, so they have different names just if the
type names of all instructions are different; that the instructions of each program go by different
names is not enough, as names in snake case and in camel case have the same type name. In a harness
an ending may also belong to the name of another instruction.
-/

namespace AnchorHarness.GeneratedTypes

open Harness (Bindings)
open Occurrence (firsts repeats)
open Program (ProgramIdl Idl Instruction AccountGroup)
open Snapshot (Alias snapshotName snapshotsOf typeNameFor contextKey structOf)
open Text (unlines)

/-! ### Endings -/

/-- Texts with endings that end in different characters are different. -/
theorem append_ne_append {a b s t : String} {c d : Char} (hs : s.toList.getLast? = some c)
    (ht : t.toList.getLast? = some d) (other : c ≠ d) : a ++ s ≠ b ++ t := by
  intro he
  have last := congrArg (fun x => x.toList.getLast?) he
  simp only [String.toList_append, List.getLast?_append, hs, ht, Option.some_or,
    Option.some.injEq] at last
  exact other last

theorem ne_append {s : String} (nonempty : s ≠ "") (a : String) : a ≠ a ++ s := by
  intro he
  have ends := (String.append_right_inj a).mp ((String.append_empty).trans he)
  exact nonempty ends.symm

theorem snapshotName_injective : Function.Injective snapshotName :=
  fun _ _ h => (String.append_left_inj _).mp h

/-! ### Snapshot types -/

/-- The snapshot types that the code of several programs defines. -/
def definedSnapshots (config : Config) (idl : Idl) : List String :=
  idl.programs.flatMap fun p =>
    marked .struct (snapshotLines config (snapshotsOf config p)) ++
      marked .alias (snapshotLines config (snapshotsOf config p))

theorem codeOf_eq_join (config : Config) (idl : Idl) :
    Snapshot.codeOf config idl = String.join (idl.programs.map fun p =>
      unlines (texts (snapshotLines config (snapshotsOf config p)))) := by
  simp only [unlines_snapshotLines]
  rw [Snapshot.codeOf, codeOf_eq]

/-- A program defines one snapshot type for each instruction. -/
theorem marked_struct_append_alias_perm (config : Config) (p : ProgramIdl) :
    (marked .struct (snapshotLines config (snapshotsOf config p)) ++
      marked .alias (snapshotLines config (snapshotsOf config p))).Perm
        ((typeNames p).map snapshotName) := by
  have all : (typeNames p).map snapshotName = p.instructions.map typeNameFor := by
    rw [typeNames, List.map_map]
    rfl
  rw [(marked_structs config _).1, (marked_aliases config _).1, Snapshot.names_structs,
    Snapshot.names_aliases, ← List.map_append, all]
  exact (Occurrence.firsts_append_repeats_perm contextKey p.instructions).map typeNameFor

theorem definedSnapshots_perm (config : Config) (idl : Idl) :
    (definedSnapshots config idl).Perm ((idl.programs.flatMap typeNames).map snapshotName) := by
  rw [List.map_flatMap]
  exact List.Perm.flatMap_left _ fun p _ => marked_struct_append_alias_perm config p

theorem nodup_definedSnapshots_iff (config : Config) (idl : Idl) :
    (definedSnapshots config idl).Nodup ↔ (idl.programs.flatMap typeNames).Nodup := by
  rw [(definedSnapshots_perm config idl).nodup_iff, List.nodup_map_iff snapshotName_injective]

/-- Where no two instructions have a type name in common, an alias and its target differ. -/
theorem forall₂_alias_ne_target (config : Config) (p : ProgramIdl)
    (distinct : (typeNames p).Nodup) :
    List.Forall₂ (· ≠ ·) (marked .alias (snapshotLines config (snapshotsOf config p)))
      (marked .target (snapshotLines config (snapshotsOf config p))) := by
  have apart : ((firsts contextKey p.instructions ++ repeats contextKey p.instructions).map
      typeNameFor).Nodup := by
    have perm := (Occurrence.firsts_append_repeats_perm contextKey p.instructions).map typeNameFor
    have names : p.instructions.map typeNameFor = (typeNames p).map snapshotName := by
      rw [typeNames, List.map_map]
      rfl
    rw [perm.nodup_iff, names, List.nodup_map_iff snapshotName_injective]
    exact distinct
  rw [List.map_append, List.nodup_append] at apart
  obtain ⟨-, -, separate⟩ := apart
  rw [(marked_aliases config _).1, (marked_aliases config _).2, List.forall₂_map_left_iff,
    List.forall₂_map_right_iff, List.forall₂_same]
  intro a ha
  -- The alias belongs to a repeated instruction, and its target to the first of the context.
  have name : a.name ∈ (repeats contextKey p.instructions).map typeNameFor := by
    rw [← Snapshot.names_aliases config]
    exact List.mem_map_of_mem ha
  have target : a.target ∈ (firsts contextKey p.instructions).map typeNameFor := by
    rw [← Snapshot.names_structs config]
    exact Snapshot.target_mem_structs config p a ha
  exact (separate a.target target a.name name).symm

/-- The snapshot types of several programs are different just if the type names of all instructions
are, and then no alias is its own target. -/
theorem definedSnapshots_distinct (config : Config) (idl : Idl) :
    Snapshot.codeOf config idl = String.join (idl.programs.map fun p =>
        unlines (texts (snapshotLines config (snapshotsOf config p)))) ∧
      ((definedSnapshots config idl).Nodup ↔ (idl.programs.flatMap typeNames).Nodup) ∧
      ((idl.programs.flatMap typeNames).Nodup → ∀ p ∈ idl.programs,
        List.Forall₂ (· ≠ ·) (marked .alias (snapshotLines config (snapshotsOf config p)))
          (marked .target (snapshotLines config (snapshotsOf config p)))) := by
  refine ⟨codeOf_eq_join config idl, nodup_definedSnapshots_iff config idl, ?_⟩
  intro distinct p hp
  exact forall₂_alias_ne_target config p ((List.nodup_flatMap.mp distinct).1 p hp)

def instructionOn (name context : String) : Instruction × AccountGroup :=
  (⟨name, []⟩, ⟨context, context ++ "<'info>", []⟩)

/-- Two programs; in the first one a second instruction takes the same context. -/
def lenders : Idl where
  programs := [⟨"vault", none, [instructionOn "open" "Open", instructionOn "reopen" "Open"]⟩,
    ⟨"bank", none, [instructionOn "open_bank" "Open"]⟩]

theorem definedSnapshots_distinct_lenders :
    (lenders.programs.flatMap typeNames).Nodup ∧ (definedSnapshots .standard lenders).Nodup ∧
      ∀ p ∈ lenders.programs,
        List.Forall₂ (· ≠ ·) (marked .alias (snapshotLines .standard (snapshotsOf .standard p)))
          (marked .target (snapshotLines .standard (snapshotsOf .standard p))) := by
  have names : lenders.programs.flatMap typeNames = ["Open", "Reopen", "OpenBank"] := by
    decide +kernel
  have distinct : (lenders.programs.flatMap typeNames).Nodup := by
    rw [names]
    decide
  obtain ⟨-, all, aliases⟩ := definedSnapshots_distinct .standard lenders
  exact ⟨distinct, all.mpr distinct, aliases distinct⟩

/-- A program with two instructions whose names differ in their case. -/
def twins : ProgramIdl :=
  ⟨"vault", none, [instructionOn "do_thing" "Do", instructionOn "doThing" "Do"]⟩

/-- Instructions of one program may have different names and one type name, and then an alias can be
its own target. Two programs may have instructions of one name. -/
theorem definedSnapshots_clash :
    (twins.instructions.map fun ix => ix.1.name).Nodup ∧
      ¬(definedSnapshots .standard ⟨[twins]⟩).Nodup ∧
      marked .alias (snapshotLines .standard (snapshotsOf .standard twins)) = ["DoThingSnapshot"] ∧
      marked .target (snapshotLines .standard (snapshotsOf .standard twins)) = ["DoThingSnapshot"] ∧
      ¬(definedSnapshots .standard
        ⟨[⟨"vault", none, [instructionOn "open" "Open"]⟩,
          ⟨"bank", none, [instructionOn "open" "Open"]⟩]⟩).Nodup := by
  have names : typeNames twins = ["DoThing", "DoThing"] := by decide +kernel
  have snake : Text.upperCamelCase "do_thing" = "DoThing" := by decide +kernel
  have camel : Text.upperCamelCase "doThing" = "DoThing" := by decide +kernel
  have aliases : (snapshotsOf .standard twins).aliases =
      [⟨snapshotName (Text.upperCamelCase "doThing"),
        snapshotName (Text.upperCamelCase "do_thing")⟩] := rfl
  rw [snake, camel] at aliases
  refine ⟨by decide, ?_, ?_, ?_, ?_⟩
  · rw [nodup_definedSnapshots_iff, List.flatMap_singleton, names]
    decide
  · rw [(marked_aliases _ _).1, aliases]
    rfl
  · rw [(marked_aliases _ _).2, aliases]
    rfl
  · rw [nodup_definedSnapshots_iff]
    intro distinct
    exact (List.nodup_cons.mp distinct).1 (List.mem_singleton.mpr rfl)

/-! ### Types of a harness -/

def definedTypes (config : Config) (bindings : Bindings) (p : ProgramIdl) : List String :=
  marked .enum (harnessLines config bindings p) ++ marked .struct (harnessLines config bindings p)

def ownTypes (name : String) : List String := [name, name ++ "Accounts", name ++ "Data"]

/-- The first name is not that of the accounts or the data of the second one. -/
def Apart (x y : String) : Prop := x ≠ y ++ "Accounts" ∧ x ≠ y ++ "Data"

theorem definedTypes_eq (config : Config) (bindings : Bindings) (p : ProgramIdl) :
    definedTypes config bindings p =
      "FuzzInstruction" :: ((typeNames p).flatMap ownTypes ++ [fuzzAccounts]) := by
  have enum : marked .enum (harnessLines config bindings p) = ["FuzzInstruction"] := by
    simp [marked_harnessLines, bearing, flatMap_nothing]
  rw [definedTypes, enum, marked_struct]
  rfl

theorem accounts_ne_data (x y : String) : x ++ "Accounts" ≠ y ++ "Data" :=
  append_ne_append rfl rfl (by decide)

theorem nodup_ownTypes (name : String) : (ownTypes name).Nodup := by
  have accounts : name ≠ name ++ "Accounts" := ne_append (by decide) name
  have data : name ≠ name ++ "Data" := ne_append (by decide) name
  simp [ownTypes, accounts, data]

theorem disjoint_ownTypes_iff (x y : String) :
    List.Disjoint (ownTypes x) (ownTypes y) ↔ x ≠ y ∧ Apart x y ∧ Apart y x := by
  have accounts : x ++ "Accounts" = y ++ "Accounts" ↔ x = y := String.append_left_inj _
  have data : x ++ "Data" = y ++ "Data" ↔ x = y := String.append_left_inj _
  have other := (accounts_ne_data y x).symm
  simp only [List.disjoint_left, ownTypes, List.mem_cons, List.not_mem_nil, or_false,
    forall_eq_or_imp, forall_eq, not_or, accounts, data, accounts_ne_data, other, Apart]
  constructor
  · rintro ⟨⟨same, first, second⟩, ⟨third, -⟩, fourth, -⟩
    exact ⟨same, ⟨first, second⟩, Ne.symm third, Ne.symm fourth⟩
  · rintro ⟨same, ⟨first, second⟩, third, fourth⟩
    exact ⟨⟨same, first, second⟩, ⟨Ne.symm third, same, not_false⟩, Ne.symm fourth, not_false, same⟩

theorem nodup_flatMap_ownTypes_iff (names : List String) :
    (names.flatMap ownTypes).Nodup ↔ names.Nodup ∧ ∀ x ∈ names, ∀ y ∈ names, Apart x y := by
  have self (x : String) : Apart x x := ⟨ne_append (by decide) x, ne_append (by decide) x⟩
  rw [List.nodup_flatMap]
  constructor
  · rintro ⟨-, disjoint⟩
    have apart : names.Pairwise fun x y => x ≠ y ∧ Apart x y ∧ Apart y x :=
      disjoint.imp fun h => (disjoint_ownTypes_iff _ _).mp h
    have symmetric : Std.Symm fun x y => Apart x y ∧ Apart y x := ⟨fun _ _ h => ⟨h.2, h.1⟩⟩
    have all := (apart.imp And.right).forall_of_forall fun x _ => ⟨self x, self x⟩
    exact ⟨apart.imp And.left, fun x hx y hy => (all hx hy).1⟩
  · rintro ⟨distinct, apart⟩
    refine ⟨fun x _ => nodup_ownTypes x, distinct.pairwise_of_forall_ne ?_⟩
    intro x hx y hy other
    exact (disjoint_ownTypes_iff x y).mpr ⟨other, apart x hx y hy, apart y hy x hx⟩

theorem fuzzInstruction_mem_ownTypes (x : String) :
    "FuzzInstruction" ∈ ownTypes x ↔ x = "FuzzInstruction" := by
  have accounts : "Fuzz" ++ "Instruction" ≠ x ++ "Accounts" := append_ne_append rfl rfl (by decide)
  have data : "Fuzz" ++ "Instruction" ≠ x ++ "Data" := append_ne_append rfl rfl (by decide)
  have split : "FuzzInstruction" = "Fuzz" ++ "Instruction" := rfl
  rw [split]
  simp only [ownTypes, List.mem_cons, List.not_mem_nil, accounts, data, or_false, eq_comm]

theorem fuzzAccounts_mem_ownTypes (x : String) :
    fuzzAccounts ∈ ownTypes x ↔ x = fuzzAccounts ∨ x = "Fuzz" := by
  have split : fuzzAccounts = "Fuzz" ++ "Accounts" := rfl
  have accounts : "Fuzz" ++ "Accounts" = x ++ "Accounts" ↔ "Fuzz" = x := String.append_left_inj _
  have data : "Fuzz" ++ "Accounts" ≠ x ++ "Data" := accounts_ne_data "Fuzz" x
  rw [split]
  simp only [ownTypes, List.mem_cons, List.not_mem_nil, accounts, data, or_false, eq_comm]

/-- The names that a harness has for itself, and the one whose accounts would have such a name. -/
def reservedNames : List String := ["FuzzInstruction", fuzzAccounts, "Fuzz"]

theorem nodup_definedTypes_iff (config : Config) (bindings : Bindings) (p : ProgramIdl) :
    (definedTypes config bindings p).Nodup ↔ (typeNames p).Nodup ∧
      (∀ x ∈ typeNames p, x ∉ reservedNames) ∧ ∀ x ∈ typeNames p, ∀ y ∈ typeNames p, Apart x y := by
  have fixed : "FuzzInstruction" ≠ fuzzAccounts := by decide
  have instruction : "FuzzInstruction" ∉ (typeNames p).flatMap ownTypes ↔
      ∀ x ∈ typeNames p, x ≠ "FuzzInstruction" := by
    simp only [List.mem_flatMap, not_exists, not_and, fuzzInstruction_mem_ownTypes, ne_eq]
  have accounts : fuzzAccounts ∉ (typeNames p).flatMap ownTypes ↔
      ∀ x ∈ typeNames p, x ≠ fuzzAccounts ∧ x ≠ "Fuzz" := by
    simp only [List.mem_flatMap, not_exists, not_and, fuzzAccounts_mem_ownTypes, not_or, ne_eq]
  have reserved : (∀ x ∈ typeNames p, x ∉ reservedNames) ↔
      (∀ x ∈ typeNames p, x ≠ "FuzzInstruction") ∧
        ∀ x ∈ typeNames p, x ≠ fuzzAccounts ∧ x ≠ "Fuzz" := by
    simp only [reservedNames, List.mem_cons, List.not_mem_nil, or_false, not_or, forall_and, ne_eq]
  rw [definedTypes_eq, List.nodup_cons, List.mem_append, not_or, List.nodup_append_comm,
    List.singleton_append, List.nodup_cons, nodup_flatMap_ownTypes_iff, instruction, accounts,
    List.mem_singleton, reserved]
  constructor
  · rintro ⟨⟨first, -⟩, last, distinct, apart⟩
    exact ⟨distinct, ⟨first, last⟩, apart⟩
  · rintro ⟨distinct, ⟨first, last⟩, apart⟩
    exact ⟨⟨first, fixed⟩, last, distinct, apart⟩

/-! ### Snapshot types that a harness names -/

/-- Of the types of a harness, only one that is named after its instruction can be called like the
snapshots of another. -/
theorem snapshotName_mem_definedTypes_iff (config : Config) (bindings : Bindings) (p : ProgramIdl)
    (y : String) :
    snapshotName y ∈ definedTypes config bindings p ↔ snapshotName y ∈ typeNames p := by
  have accounts (x : String) : y ++ "Snapshot" ≠ x ++ "Accounts" :=
    append_ne_append rfl rfl (by decide)
  have data (x : String) : y ++ "Snapshot" ≠ x ++ "Data" := append_ne_append rfl rfl (by decide)
  have instruction : y ++ "Snapshot" ≠ "Fuzz" ++ "Instruction" :=
    append_ne_append rfl rfl (by decide)
  have own (x : String) : snapshotName y ∈ ownTypes x ↔ snapshotName y = x := by
    simp only [ownTypes, List.mem_cons, List.not_mem_nil, snapshotName, accounts, data, or_false]
  rw [definedTypes_eq, List.mem_cons, List.mem_append, List.mem_flatMap, List.mem_singleton]
  constructor
  · rintro (h | ⟨x, hx, h⟩ | h)
    · exact absurd h instruction
    · exact (own x).mp h ▸ hx
    · exact absurd h (accounts "Fuzz")
  · intro h
    exact .inr (.inl ⟨snapshotName y, h, (own _).mpr rfl⟩)

theorem notShadowed_iff (config : Config) (bindings : Bindings) (p : ProgramIdl) :
    (∀ name ∈ marked .snapshot (harnessLines config bindings p),
        name ∉ definedTypes config bindings p) ↔
      ∀ x ∈ typeNames p, ∀ y ∈ typeNames p, x ≠ snapshotName y := by
  rw [marked_snapshot]
  simp only [List.forall_mem_map, snapshotName_mem_definedTypes_iff]
  constructor
  · intro free x hx y hy same
    exact free y hy (same ▸ hx)
  · intro free y hy there
    exact free _ there y hy rfl

/-- The types that a harness defines have different names just if the instructions have, no name is
reserved, and none is that of the accounts or the data of another instruction. No type stands in for
snapshots just if no instruction is called like the snapshots of another. -/
theorem definedTypes_distinct (config : Config) (bindings : Bindings) (p : ProgramIdl) :
    Harness.programCode config bindings p = unlines (texts (harnessLines config bindings p)) ∧
      ((definedTypes config bindings p).Nodup ↔ (typeNames p).Nodup ∧
        (∀ x ∈ typeNames p, x ∉ reservedNames) ∧
          ∀ x ∈ typeNames p, ∀ y ∈ typeNames p, Apart x y) ∧
      ((∀ name ∈ marked .snapshot (harnessLines config bindings p),
          name ∉ definedTypes config bindings p) ↔
        ∀ x ∈ typeNames p, ∀ y ∈ typeNames p, x ≠ snapshotName y) :=
  ⟨(unlines_harnessLines config bindings p).symm, nodup_definedTypes_iff config bindings p,
    notShadowed_iff config bindings p⟩

/-- The data of the first instruction is called like the second one, and its snapshots like the
third one. -/
def deposits : ProgramIdl :=
  ⟨"vault", none, [instructionOn "deposit" "Deposit", instructionOn "deposit_data" "Book",
    instructionOn "deposit_snapshot" "State"]⟩

theorem definedTypes_clash :
    (typeNames deposits).Nodup ∧ ¬(definedTypes .standard [] deposits).Nodup ∧
      "DepositSnapshot" ∈ marked .snapshot (harnessLines .standard [] deposits) ∧
      "DepositSnapshot" ∈ definedTypes .standard [] deposits := by
  have names : typeNames deposits = ["Deposit", "DepositData", "DepositSnapshot"] := by
    decide +kernel
  refine ⟨?_, ?_, ?_, ?_⟩
  · rw [names]
    decide
  · rw [nodup_definedTypes_iff, names]
    rintro ⟨-, -, apart⟩
    exact (apart "DepositData" (by simp) "Deposit" (by simp)).2 rfl
  · rw [marked_snapshot, names]
    exact List.mem_cons_self ..
  · have own := (snapshotName_mem_definedTypes_iff .standard [] deposits "Deposit").mpr
    rw [names] at own
    exact own (by decide)

end AnchorHarness.GeneratedTypes
