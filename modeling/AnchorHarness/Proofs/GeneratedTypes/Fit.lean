import AnchorHarness.Proofs.GeneratedTypes.Marking

/-!
# The two generated modules fit together

Every type that the harness of a program names is defined in it or, if it is the type of a snapshot,
by the snapshot module of the program; and there are no other snapshot types. The harness has its
types for every instruction, the snapshot module a struct for every context and an alias for every
other instruction, so `Fit` is about any way in which instructions share contexts.
-/

namespace AnchorHarness.GeneratedTypes

open Harness (Bindings)
open Program (ProgramIdl Idl Instruction AccountGroup)
open Snapshot (Snapshots Struct Alias snapshotName snapshotsOf typeNameFor contextKey)
open Text (indent unlines)

def typeNames (p : ProgramIdl) : List String := p.instructions.map fun ix => ix.1.typeName

/-- The types that are named in the two modules of a program, and where they are defined. -/
structure Fit (config : Config) (bindings : Bindings) (p : ProgramIdl) : Prop where
  variants : marked .variant (harnessLines config bindings p) = typeNames p
  structs : marked .struct (harnessLines config bindings p) =
    (typeNames p).flatMap (fun name => [name, name ++ "Accounts", name ++ "Data"]) ++ [fuzzAccounts]
  operations : marked .operations (harnessLines config bindings p) = typeNames p
  -- The operations of an instruction name the accounts of the fuzzer three times.
  uses : marked .use (harnessLines config bindings p) =
    typeNames p ++ (typeNames p).flatMap (fun name => [name ++ "Accounts", name ++ "Data"]) ++
      (typeNames p).flatMap fun _ => [fuzzAccounts, fuzzAccounts, fuzzAccounts]
  defined : ∀ mark ∈ [Mark.use, .operations, .functions],
    ∀ name ∈ marked mark (harnessLines config bindings p),
      name ∈ marked .struct (harnessLines config bindings p)
  snapshots : marked .snapshot (harnessLines config bindings p) = (typeNames p).map snapshotName
  shared : ∀ name, name ∈ marked .snapshot (harnessLines config bindings p) ↔
    name ∈ marked .struct (snapshotLines config (snapshotsOf config p)) ∨
      name ∈ marked .alias (snapshotLines config (snapshotsOf config p))
  targets : ∀ name ∈ marked .target (snapshotLines config (snapshotsOf config p)),
    name ∈ marked .struct (snapshotLines config (snapshotsOf config p)) ∧
      name ∈ marked .functions (snapshotLines config (snapshotsOf config p))

/-! ### Marks of the harness module -/

/-- A name, if the mark that it bears is the one asked for. -/
def bearing (mark m : Mark) (name : String) : List String := if mark = m then [name] else []

theorem flatMap_nothing {α : Type} (xs : List α) : xs.flatMap (fun _ => ([] : List String)) = [] :=
  List.flatMap_eq_nil_iff.mpr fun _ _ => rfl

theorem marked_choiceLines (m : Mark) (names : List String) :
    marked m (choiceLines names) = bearing .enum m "FuzzInstruction" ++
      names.flatMap fun name => bearing .variant m name ++ bearing .use m name := by
  simp [choiceLines, marked, bearing, List.flatMap_map]

theorem marked_fieldLines (m : Mark) (fields : List (String × Piece)) :
    marked m (fields.map fun field =>
      [plain (indent ++ "pub " ++ field.1 ++ ": "), field.2, plain ","]) =
        Line.marked m (fields.map Prod.snd) := by
  induction fields with
  | nil => rfl
  | cons field fields ih => simp [ih]

theorem marked_structLines (m : Mark) (name : String) (fields : List (String × Piece)) :
    marked m (structLines name fields) =
      bearing .struct m name ++ Line.marked m (fields.map Prod.snd) := by
  cases fields with
  | nil => simp [structLines, bearing]
  | cons field fields => simp [structLines, marked_fieldLines, bearing]

theorem marked_plain {α : Type} (m : Mark) (type : α → String) (xs : List α) :
    Line.marked m (xs.map fun x => plain (type x)) = [] := by
  induction xs with
  | nil => rfl
  | cons x xs ih => simp [ih]

theorem marked_instructionLines (m : Mark) (p : Instruction × AccountGroup) :
    marked m (instructionLines p) = bearing .struct m p.1.typeName ++
      bearing .use m (p.1.typeName ++ "Accounts") ++ bearing .use m (p.1.typeName ++ "Data") ++
      bearing .struct m (p.1.typeName ++ "Accounts") ++
      bearing .struct m (p.1.typeName ++ "Data") := by
  simp only [instructionLines, marked_append, marked_structLines, List.map_map, Function.comp_def,
    marked_plain, List.map_cons, List.map_nil, Line.marked_cons, Line.marked_nil, bearing,
    Option.some.injEq, List.append_assoc, List.append_nil]

theorem marked_operationsLines (m : Mark) (module : String) (o : Harness.Operations) :
    marked m (operationsLines module o) = bearing .operations m o.name ++
      bearing .use m fuzzAccounts ++ bearing .snapshot m o.snapshot ++
      bearing .use m fuzzAccounts ++ bearing .use m fuzzAccounts := by
  simp [operationsLines, dataLines, accountsLines, bearing]

theorem marked_storageLines (m : Mark) (roles : Harness.RoleRegistry) :
    marked m (storageLines roles) =
      bearing .struct m fuzzAccounts ++ bearing .functions m fuzzAccounts := by
  cases h : roles.entries.isEmpty <;> simp [storageLines, h, bearing]

theorem marked_harnessLines (m : Mark) (config : Config) (bindings : Bindings) (p : ProgramIdl) :
    marked m (harnessLines config bindings p) =
      bearing .enum m "FuzzInstruction" ++
        (typeNames p).flatMap (fun name => bearing .variant m name ++ bearing .use m name) ++
        (typeNames p).flatMap (fun name => bearing .struct m name ++
          bearing .use m (name ++ "Accounts") ++ bearing .use m (name ++ "Data") ++
          bearing .struct m (name ++ "Accounts") ++ bearing .struct m (name ++ "Data")) ++
        (typeNames p).flatMap (fun name => bearing .operations m name ++
          bearing .use m fuzzAccounts ++ bearing .snapshot m (snapshotName name) ++
          bearing .use m fuzzAccounts ++ bearing .use m fuzzAccounts) ++
        bearing .struct m fuzzAccounts ++ bearing .functions m fuzzAccounts := by
  simp only [harnessLines, marked_append, marked_unmarked, marked_deepened, marked_flatMap,
    marked_choiceLines, marked_instructionLines, marked_operationsLines, marked_storageLines,
    Harness.operationsOf, typeNames, List.flatMap_map, List.nil_append, List.append_nil,
    List.append_assoc]

section
variable (config : Config) (bindings : Bindings) (p : ProgramIdl)

theorem marked_variant :
    marked .variant (harnessLines config bindings p) = typeNames p := by
  simp [marked_harnessLines, bearing]

theorem marked_struct :
    marked .struct (harnessLines config bindings p) =
      (typeNames p).flatMap (fun name => [name, name ++ "Accounts", name ++ "Data"]) ++
        [fuzzAccounts] := by
  simp [marked_harnessLines, bearing, flatMap_nothing]

theorem marked_operations :
    marked .operations (harnessLines config bindings p) = typeNames p := by
  simp [marked_harnessLines, bearing, flatMap_nothing]

theorem marked_functions :
    marked .functions (harnessLines config bindings p) = [fuzzAccounts] := by
  simp [marked_harnessLines, bearing, flatMap_nothing]

theorem marked_use :
    marked .use (harnessLines config bindings p) =
      typeNames p ++ (typeNames p).flatMap (fun name => [name ++ "Accounts", name ++ "Data"]) ++
        (typeNames p).flatMap fun _ => [fuzzAccounts, fuzzAccounts, fuzzAccounts] := by
  simp [marked_harnessLines, bearing]

theorem marked_snapshot :
    marked .snapshot (harnessLines config bindings p) = (typeNames p).map snapshotName := by
  simp [marked_harnessLines, bearing, flatMap_nothing, List.map_eq_flatMap]

theorem mem_marked_struct (mark : Mark) (hmark : mark ∈ [Mark.use, .operations, .functions])
    (name : String) (hname : name ∈ marked mark (harnessLines config bindings p)) :
    name ∈ marked .struct (harnessLines config bindings p) := by
  rw [marked_struct, List.mem_append, List.mem_flatMap, List.mem_singleton]
  have own (h : name ∈ typeNames p) :
      ∃ n ∈ typeNames p, name ∈ [n, n ++ "Accounts", n ++ "Data"] :=
    ⟨name, h, List.mem_cons_self ..⟩
  simp only [List.mem_cons, List.not_mem_nil, or_false] at hmark
  obtain rfl | rfl | rfl := hmark
  · rw [marked_use, List.mem_append, List.mem_append, List.mem_flatMap, List.mem_flatMap] at hname
    obtain (h | ⟨n, hn, h⟩) | ⟨n, -, h⟩ := hname
    · exact .inl (own h)
    · exact .inl ⟨n, hn, List.mem_cons_of_mem n h⟩
    · exact .inr (by simpa using h)
  · rw [marked_operations] at hname
    exact .inl (own hname)
  · rw [marked_functions] at hname
    exact .inr (List.mem_singleton.mp hname)

end

/-! ### Marks of the snapshot module -/

theorem marked_intercalate (m : Mark) (parts : List (List Line)) :
    marked m ([[]].intercalate parts) = parts.flatMap (marked m) := by
  induction parts with
  | nil => simp
  | cons part parts ih =>
    cases parts with
    | nil => simp
    | cons next parts => simp [List.intercalate_cons_cons, ih]

theorem marked_snapshotLines (m : Mark) (config : Config) (s : Snapshots) :
    marked m (snapshotLines config s) =
      s.structs.flatMap (fun d => bearing .struct m d.name) ++
        s.structs.flatMap (fun d => bearing .functions m d.name) ++
        s.aliases.flatMap fun a => bearing .alias m a.name ++ bearing .target m a.target := by
  simp [snapshotLines, marked_intercalate, List.flatMap_map, snapshotStructLines, fillingLines,
    aliasLines, bearing]

theorem marked_structs (config : Config) (s : Snapshots) :
    marked .struct (snapshotLines config s) = s.structs.map Struct.name ∧
      marked .functions (snapshotLines config s) = s.structs.map Struct.name := by
  simp [marked_snapshotLines, bearing, flatMap_nothing, List.map_eq_flatMap]

theorem marked_aliases (config : Config) (s : Snapshots) :
    marked .alias (snapshotLines config s) = s.aliases.map Alias.name ∧
      marked .target (snapshotLines config s) = s.aliases.map Alias.target := by
  simp [marked_snapshotLines, bearing, flatMap_nothing, List.map_eq_flatMap]

/-- The names of the snapshot types of a program are those of its structs and its aliases. -/
theorem mem_snapshotNames (config : Config) (p : ProgramIdl) (name : String) :
    name ∈ (typeNames p).map snapshotName ↔
      name ∈ (snapshotsOf config p).structs.map Struct.name ∨
        name ∈ (snapshotsOf config p).aliases.map Alias.name := by
  have all : (typeNames p).map snapshotName = p.instructions.map typeNameFor := by
    rw [typeNames, List.map_map]
    rfl
  -- A struct stands for the first instruction of each context, an alias for every other one.
  rw [all, Snapshot.names_structs, Snapshot.names_aliases, List.mem_map, List.mem_map, List.mem_map]
  simp only [Occurrence.mem_iff_firsts_or_repeats contextKey p.instructions, or_and_right,
    exists_or]

/-! ### The whole -/

theorem fit (config : Config) (bindings : Bindings) (p : ProgramIdl) : Fit config bindings p where
  variants := marked_variant config bindings p
  structs := marked_struct config bindings p
  operations := marked_operations config bindings p
  uses := marked_use config bindings p
  defined := mem_marked_struct config bindings p
  snapshots := marked_snapshot config bindings p
  shared name := by
    rw [marked_snapshot, (marked_structs config _).1, (marked_aliases config _).1]
    exact mem_snapshotNames config p name
  targets name hname := by
    rw [(marked_aliases config _).2] at hname
    obtain ⟨a, ha, rfl⟩ := List.mem_map.mp hname
    have there := Snapshot.target_mem_structs config p a ha
    rw [(marked_structs config _).1, (marked_structs config _).2]
    exact ⟨there, there⟩

theorem codeOf_eq (config : Config) (earlier : List String) (programs : List ProgramIdl) :
    (Snapshot.snapshotRun config earlier programs).map (fun next => next.1.code config) =
      programs.map fun p => (snapshotsOf config p).code config := by
  induction programs generalizing earlier with
  | nil => rfl
  | cons p programs ih =>
    rw [Snapshot.snapshotRun, List.map_cons, List.map_cons, ih, Snapshot.nextSnapshots_eq]

/-- The harness and the snapshots of each program in the code of several programs fit together. -/
theorem generated_fit (config : Config) (bindings : Bindings) (idl : Idl) :
    Harness.codeOf config bindings idl =
        String.join (idl.programs.map fun p => unlines (texts (harnessLines config bindings p))) ∧
      Snapshot.codeOf config idl =
        String.join (idl.programs.map fun p =>
          unlines (texts (snapshotLines config (snapshotsOf config p)))) ∧
      ∀ p, Fit config bindings p := by
  refine ⟨?_, ?_, fit config bindings⟩
  · simp only [unlines_harnessLines]
    rfl
  · simp only [unlines_snapshotLines]
    rw [Snapshot.codeOf, codeOf_eq]

end AnchorHarness.GeneratedTypes
