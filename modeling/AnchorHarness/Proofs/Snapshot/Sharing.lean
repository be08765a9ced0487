import AnchorHarness.Proofs.Occurrence
import AnchorHarness.Snapshot.Plan
import Mathlib.Data.List.Forall2

/-!
# Which instructions share a snapshot

The instructions that are the first of their context have structs, and all others have aliases for
these. `snapshotRun_at` says so of every program of a run, whatever programs come before it, and
what is added to the warnings there.
-/

namespace AnchorHarness.Snapshot

open Account (Field)
open Occurrence (newAfter firsts repeats)
open Program (ProgramIdl Instruction AccountGroup)

def contextKey (p : Instruction × AccountGroup) : String := p.2.identity

def typeNameFor (p : Instruction × AccountGroup) : String := snapshotName p.1.typeName

/-- The struct of an instruction that is the first of its context. -/
def structOf (p : Instruction × AccountGroup) : Struct := structFor (typeNameFor p) p.2

/-- An alias is for an instruction, and names the struct of its context. -/
def StandsFor (structs : List Struct) (p : Instruction × AccountGroup) (a : Alias) : Prop :=
  a.name = typeNameFor p ∧ ∃ d ∈ structs, d.identity = contextKey p ∧ a.target = d.name

/-! ### One program -/

/-- The contexts of some structs, each with the name of its struct. -/
def NamesOf (structs : List Struct) (t : Table String String) : Prop :=
  ∀ identity name, Table.find? identity t = some name ↔
    ∃ d ∈ structs, d.identity = identity ∧ d.name = name

/-- What is so after the given instructions, which began with the given warnings. -/
structure Progress.Holds (config : Config) (earlier : List String)
    (done : List (Instruction × AccountGroup)) (s : Progress) : Prop where
  canonical : NamesOf s.structs s.canonical
  structs : s.structs = (firsts contextKey done).map structOf
  aliases : List.Forall₂ (StandsFor s.structs) (repeats contextKey done) s.aliases
  warnings : s.warnings = earlier ++ s.structs.flatMap (Struct.warnings config)

theorem Progress.holds_nil (config : Config) (earlier : List String) :
    Progress.Holds config earlier [] ⟨[], [], [], earlier⟩ where
  canonical := by simp [NamesOf, Table.find?]
  structs := rfl
  aliases := .nil
  warnings := by simp

theorem exists_struct_iff (done : List (Instruction × AccountGroup)) (identity : String) :
    (∃ d ∈ (firsts contextKey done).map structOf, d.identity = identity) ↔
      ∃ q ∈ done, contextKey q = identity := by
  have keys : ((firsts contextKey done).map structOf).map Struct.identity =
      (firsts contextKey done).map contextKey := List.map_map
  rw [← List.mem_map, ← List.mem_map, keys, Occurrence.mem_map_firsts]

theorem Progress.Holds.find?_eq_none_iff {config : Config} {earlier : List String}
    {done : List (Instruction × AccountGroup)} {s : Progress} (h : s.Holds config earlier done)
    (p : Instruction × AccountGroup) :
    Table.find? (contextKey p) s.canonical = none ↔ newAfter contextKey done p = true := by
  rw [Occurrence.newAfter_iff, Option.eq_none_iff_forall_not_mem]
  constructor
  · intro hn q hq hk
    obtain ⟨d, hd, hi⟩ := (exists_struct_iff done (contextKey p)).mpr ⟨q, hq, hk⟩
    rw [← h.structs] at hd
    exact hn d.name ((h.canonical _ _).mpr ⟨d, hd, hi, rfl⟩)
  · intro hn name hname
    obtain ⟨d, hd, hi, -⟩ := (h.canonical _ _).mp hname
    rw [h.structs] at hd
    obtain ⟨q, hq, hk⟩ := (exists_struct_iff done (contextKey p)).mp ⟨d, hd, hi⟩
    exact hn q hq hk

theorem StandsFor.mono {structs more : List Struct} {p : Instruction × AccountGroup} {a : Alias}
    (h : StandsFor structs p a) : StandsFor (structs ++ more) p a := by
  obtain ⟨hn, d, hd, hi⟩ := h
  exact ⟨hn, d, List.mem_append_left more hd, hi⟩

theorem NamesOf.put {structs : List Struct} {t : Table String String} (h : NamesOf structs t)
    (d : Struct) (fresh : Table.find? d.identity t = none) :
    NamesOf (structs ++ [d]) (Table.put d.identity d.name t) := by
  intro identity name
  rw [Table.find?_put]
  simp only [List.mem_append, List.mem_singleton, or_and_right, exists_or, exists_eq_left,
    ← h identity name]
  by_cases hi : d.identity = identity
  · have absent : Table.find? identity t ≠ some name := by
      rw [← hi, fresh]
      simp
    rw [if_pos hi, Option.some.injEq]
    constructor
    · intro hn
      exact .inr ⟨hi, hn⟩
    · rintro (found | ⟨-, hn⟩)
      · exact absurd found absent
      · exact hn
  · rw [if_neg hi]
    constructor
    · exact .inl
    · rintro (found | ⟨same, -⟩)
      · exact found
      · exact absurd same hi

/-! The two ways of adding an instruction: its context is one of those seen, or a new one. -/

section
variable {config : Config} {earlier : List String} {done : List (Instruction × AccountGroup)}
  {s : Progress} (h : s.Holds config earlier done) (p : Instruction × AccountGroup)
include h

theorem Progress.Holds.add_seen (target : String)
    (hf : Table.find? (contextKey p) s.canonical = some target) :
    (s.add config p).Holds config earlier (done ++ [p]) := by
  have repeated : newAfter contextKey done p = false := by
    have seen := h.find?_eq_none_iff p
    rw [hf] at seen
    simpa using seen
  obtain ⟨d, hd, hi, hn⟩ := (h.canonical _ _).mp hf
  have step : s.add config p = { s with aliases := s.aliases ++ [⟨typeNameFor p, target⟩] } := by
    rw [contextKey] at hf
    simp only [Progress.add, hf]
    rfl
  rw [step]
  refine ⟨h.canonical, ?_, ?_, h.warnings⟩
  · simp [Occurrence.firsts_append_singleton, repeated, h.structs]
  · rw [Occurrence.repeats_append_singleton, repeated]
    exact List.rel_append h.aliases (.cons ⟨rfl, d, hd, hi, hn.symm⟩ .nil)

theorem Progress.Holds.add_new (hf : Table.find? (contextKey p) s.canonical = none) :
    (s.add config p).Holds config earlier (done ++ [p]) := by
  have first := (h.find?_eq_none_iff p).mp hf
  have step : s.add config p =
      { s with
        canonical := Table.put (contextKey p) (typeNameFor p) s.canonical
        structs := s.structs ++ [structOf p]
        warnings := s.warnings ++ (structOf p).warnings config } := by
    rw [contextKey] at hf
    simp only [Progress.add, hf]
    rfl
  rw [step]
  refine ⟨h.canonical.put (structOf p) hf, ?_, ?_, ?_⟩
  · simp [Occurrence.firsts_append_singleton, first, h.structs]
  · rw [Occurrence.repeats_append_singleton, first, if_pos rfl, List.append_nil]
    exact h.aliases.imp fun _ _ => StandsFor.mono
  · simp [h.warnings]

theorem Progress.Holds.add : (s.add config p).Holds config earlier (done ++ [p]) := by
  cases hf : Table.find? (contextKey p) s.canonical with
  | some target => exact h.add_seen p target hf
  | none => exact h.add_new p hf

end

theorem Progress.holds_foldl (config : Config) (earlier : List String)
    (ps : List (Instruction × AccountGroup)) :
    (ps.foldl (Progress.add config) ⟨[], [], [], earlier⟩).Holds config earlier ps := by
  induction ps using List.reverseRecOn with
  | nil => exact Progress.holds_nil config earlier
  | append_singleton ps p ih =>
    rw [List.foldl_append]
    exact ih.add p

/-! ### Several programs -/

def Progress.behind (front : List String) (s : Progress) : Progress :=
  { s with warnings := front ++ s.warnings }

/-- What an instruction adds does not hang on the warnings. -/
theorem Progress.add_behind (config : Config) (front : List String) (s : Progress)
    (p : Instruction × AccountGroup) :
    (s.behind front).add config p = (s.add config p).behind front := by
  unfold Progress.add Progress.behind
  cases Table.find? p.2.identity s.canonical <;> simp

/-- The snapshots of a program by itself. -/
def snapshotsOf (config : Config) (p : ProgramIdl) : Snapshots := (nextSnapshots config [] p).1

theorem structs_snapshotsOf (config : Config) (p : ProgramIdl) :
    (snapshotsOf config p).structs = (firsts contextKey p.instructions).map structOf :=
  (Progress.holds_foldl config [] p.instructions).structs

theorem aliases_snapshotsOf (config : Config) (p : ProgramIdl) :
    List.Forall₂ (StandsFor (snapshotsOf config p).structs) (repeats contextKey p.instructions)
      (snapshotsOf config p).aliases :=
  (Progress.holds_foldl config [] p.instructions).aliases

theorem names_structs (config : Config) (p : ProgramIdl) :
    (snapshotsOf config p).structs.map Struct.name =
      (firsts contextKey p.instructions).map typeNameFor := by
  rw [structs_snapshotsOf, List.map_map]
  rfl

theorem names_aliases (config : Config) (p : ProgramIdl) :
    (snapshotsOf config p).aliases.map Alias.name =
      (repeats contextKey p.instructions).map typeNameFor := by
  have names {structs : List Struct} {ps : List (Instruction × AccountGroup)} {as : List Alias}
      (h : List.Forall₂ (StandsFor structs) ps as) : as.map Alias.name = ps.map typeNameFor := by
    induction h with
    | nil => rfl
    | cons stands _ ih => rw [List.map_cons, List.map_cons, ih, stands.1]
  exact names (aliases_snapshotsOf config p)

/-- Every alias is for a struct of the program. -/
theorem target_mem_structs (config : Config) (p : ProgramIdl) (a : Alias)
    (ha : a ∈ (snapshotsOf config p).aliases) :
    a.target ∈ (snapshotsOf config p).structs.map Struct.name := by
  obtain ⟨place, hp, rfl⟩ := List.getElem_of_mem ha
  have aliases := aliases_snapshotsOf config p
  obtain ⟨-, d, hd, -, ht⟩ := aliases.get (aliases.length_eq ▸ hp) hp
  exact List.mem_map.mpr ⟨d, hd, ht.symm⟩

/-- The struct that the snapshot type of the instruction at a place stands for: its own if no
instruction before it has its context, or else that of an alias. -/
def StandsAt (s : Snapshots) (ps : List (Instruction × AccountGroup)) (place : Nat)
    (p : Instruction × AccountGroup) (d : Struct) : Prop :=
  d ∈ s.structs ∧ d.identity = contextKey p ∧
    if newAfter contextKey (ps.take place) p then d.name = typeNameFor p
    else ⟨typeNameFor p, d.name⟩ ∈ s.aliases

/-- The snapshot type of an instruction stands for the struct of one with its context. -/
theorem exists_standsAt (config : Config) (program : ProgramIdl) (place : Nat)
    (p : Instruction × AccountGroup) (hp : program.instructions[place]? = some p) :
    ∃ q ∈ program.instructions, contextKey q = contextKey p ∧
      StandsAt (snapshotsOf config program) program.instructions place p (structOf q) := by
  have structs := structs_snapshotsOf config program
  unfold StandsAt
  rw [structs]
  cases hn : newAfter contextKey (program.instructions.take place) p with
  | true =>
    have first : p ∈ firsts contextKey program.instructions := Occurrence.mem_picked hp hn
    exact ⟨p, List.mem_of_getElem? hp, rfl, List.mem_map_of_mem first, rfl, rfl⟩
  | false =>
    have repeated : p ∈ repeats contextKey program.instructions :=
      Occurrence.mem_picked hp (by simp [hn])
    obtain ⟨i, hi, rfl⟩ := List.getElem_of_mem repeated
    have aliases := aliases_snapshotsOf config program
    have hi' := aliases.length_eq ▸ hi
    have stands := aliases.get hi hi'
    simp only [List.get_eq_getElem] at stands
    obtain ⟨hname, d, hd, hk, ht⟩ := stands
    rw [structs] at hd
    obtain ⟨q, hq, rfl⟩ := List.mem_map.mp hd
    have there := List.getElem_mem hi'
    refine ⟨q, Occurrence.mem_of_mem_firsts contextKey _ q hq, hk, hd, hk, ?_⟩
    rw [if_neg Bool.false_ne_true, ← ht, ← hname]
    exact there

/-- The warnings about the nested groups of a program, for the first instruction of each context. -/
def newWarnings (config : Config) (p : ProgramIdl) : List String :=
  (firsts contextKey p.instructions).flatMap fun q =>
    (q.2.fields.filter Field.isComposite).map (compositeWarning config q.2.name)

/-- Warnings from before have no part in the snapshots, and stay in front of the new ones. -/
theorem nextSnapshots_eq (config : Config) (earlier : List String) (p : ProgramIdl) :
    nextSnapshots config earlier p = (snapshotsOf config p, earlier ++ newWarnings config p) := by
  have moved : p.instructions.foldl (Progress.add config) ⟨[], [], [], earlier⟩ =
      (p.instructions.foldl (Progress.add config) ⟨[], [], [], []⟩).behind earlier := by
    rw [← List.foldl_hom (Progress.behind earlier) fun s q => Progress.add_behind config earlier s q]
    simp [Progress.behind]
  have alone := Progress.holds_foldl config [] p.instructions
  have warnings : (p.instructions.foldl (Progress.add config) ⟨[], [], [], []⟩).warnings =
      newWarnings config p := by
    rw [alone.warnings, alone.structs, List.nil_append, List.flatMap_map]
    rfl
  rw [snapshotsOf, nextSnapshots, nextSnapshots, moved]
  simp only [Progress.behind, warnings]

theorem warningsAfter_cons (config : Config) (earlier : List String) (p : ProgramIdl)
    (programs : List ProgramIdl) :
    warningsAfter config earlier (p :: programs) =
      warningsAfter config (nextSnapshots config earlier p).2 programs := by
  rw [warningsAfter, snapshotRun, List.getLast?_cons, warningsAfter]
  cases (snapshotRun config (nextSnapshots config earlier p).2 programs).getLast? <;> rfl

/-- Before a program of a run come the warnings after the programs in front of it. -/
theorem getElem?_snapshotRun (config : Config) (earlier : List String)
    (before after : List ProgramIdl) (p : ProgramIdl) :
    (snapshotRun config earlier (before ++ p :: after))[before.length]? =
      some (nextSnapshots config (warningsAfter config earlier before) p) := by
  induction before generalizing earlier with
  | nil => rfl
  | cons q before ih =>
    rw [List.cons_append, snapshotRun, List.length_cons, List.getElem?_cons_succ, ih,
      warningsAfter_cons]

/-- In a run over several programs, the structs of a program are those of the first instruction of
each context, all other instructions have an alias for the struct of their context, and the warnings
grow by those about the structs. -/
theorem snapshotRun_at (config : Config) (earlier : List String) (before after : List ProgramIdl)
    (p : ProgramIdl) :
    (snapshotRun config earlier (before ++ p :: after))[before.length]? =
        some (snapshotsOf config p, warningsAfter config earlier before ++ newWarnings config p) ∧
      (snapshotsOf config p).structs = (firsts contextKey p.instructions).map structOf ∧
      List.Forall₂ (StandsFor (snapshotsOf config p).structs) (repeats contextKey p.instructions)
        (snapshotsOf config p).aliases ∧
      (snapshotsOf config p).structs.length + (snapshotsOf config p).aliases.length =
        p.instructions.length ∧
      ((snapshotsOf config p).structs.map Struct.identity).Nodup := by
  have structs := structs_snapshotsOf config p
  have aliases := aliases_snapshotsOf config p
  refine ⟨?_, structs, aliases, ?_, ?_⟩
  · rw [getElem?_snapshotRun, nextSnapshots_eq]
  · rw [structs, List.length_map, ← aliases.length_eq]
    exact Occurrence.length_firsts_add_repeats contextKey p.instructions
  · rw [structs, List.map_map]
    exact Occurrence.nodup_map_firsts contextKey p.instructions

end AnchorHarness.Snapshot
