import AnchorHarness.Program.Idl
import AnchorHarness.Proofs.Text.CaseVariants

/-!
# Instructions by name

An instruction goes by two names, the one that it was given and the one of its type, and a lookup
yields the first instruction that goes by the text. So the type name of an instruction hides a later
one that was given this name. A type name has neither a separator nor a small letter in front, and
an instruction whose name has one of them cannot be hidden.
-/

namespace AnchorHarness.Program

open Text (IsNoTypeName)

/-! ### The first that goes by a name -/

def GoesBy (name : String) (q : Instruction × AccountGroup) : Prop :=
  q.1.name = name ∨ q.1.typeName = name

theorem find?_eq_some_iff {p : ProgramIdl} {name : String} {q : Instruction × AccountGroup} :
    p.find? name = some q ↔
      GoesBy name q ∧ ∃ before after, p.instructions = before ++ q :: after ∧
        ∀ r ∈ before, ¬GoesBy name r := by
  rw [ProgramIdl.find?, List.find?_eq_some_iff_append]
  simp [GoesBy]

theorem find?_eq_none_iff {p : ProgramIdl} {name : String} :
    p.find? name = none ↔ ∀ q ∈ p.instructions, ¬GoesBy name q := by
  rw [ProgramIdl.find?, List.find?_eq_none]
  simp [GoesBy]

section

variable {p : ProgramIdl} {before after : List (Instruction × AccountGroup)}
  {q : Instruction × AccountGroup}

theorem name_ne_of_before (distinct : (p.instructions.map fun q => q.1.name).Nodup)
    (split : p.instructions = before ++ q :: after) : ∀ r ∈ before, r.1.name ≠ q.1.name := by
  rw [split, List.map_append, List.map_cons] at distinct
  intro r there
  exact (List.nodup_append.mp distinct).2.2 _ (List.mem_map_of_mem there) _
    (List.mem_cons_self ..)

/-- Only the type name of an earlier instruction can stand in the way of a given name. -/
theorem goesBy_iff_of_before (distinct : (p.instructions.map fun q => q.1.name).Nodup)
    (split : p.instructions = before ++ q :: after) :
    ∀ r ∈ before, GoesBy q.1.name r ↔ r.1.typeName = q.1.name := by
  intro r there
  have other := name_ne_of_before distinct split r there
  simp [GoesBy, other]

theorem find?_name_of_unhidden (distinct : (p.instructions.map fun q => q.1.name).Nodup)
    (split : p.instructions = before ++ q :: after)
    (unhidden : ∀ r ∈ before, r.1.typeName ≠ q.1.name) : p.find? q.1.name = some q := by
  refine find?_eq_some_iff.mpr ⟨.inl rfl, before, after, split, ?_⟩
  intro r there
  rw [goesBy_iff_of_before distinct split r there]
  exact unhidden r there

theorem find?_name_of_hidden {front rest : List (Instruction × AccountGroup)}
    {r : Instruction × AccountGroup} (distinct : (p.instructions.map fun q => q.1.name).Nodup)
    (split : p.instructions = front ++ r :: rest ++ q :: after)
    (hides : r.1.typeName = q.1.name) (first : ∀ x ∈ front, x.1.typeName ≠ q.1.name) :
    p.find? q.1.name = some r := by
  refine find?_eq_some_iff.mpr ⟨.inr hides, front, rest ++ q :: after, ?_, ?_⟩
  · rw [split, List.append_assoc]
    rfl
  · intro x there
    rw [goesBy_iff_of_before distinct split x (List.mem_append_left _ there)]
    exact first x there

theorem find?_name_eq_some_self_iff (distinct : (p.instructions.map fun q => q.1.name).Nodup)
    (split : p.instructions = before ++ q :: after) :
    p.find? q.1.name = some q ↔ ∀ r ∈ before, r.1.typeName ≠ q.1.name := by
  constructor
  · intro found
    by_contra hidden
    push Not at hidden
    -- The first that hides the instruction is found, and it has another name.
    obtain ⟨r, front, rest, rfl, hides, first⟩ :
        ∃ r front rest, before = front ++ r :: rest ∧ r.1.typeName = q.1.name ∧
          ∀ x ∈ front, x.1.typeName ≠ q.1.name := by
      cases search : before.find? fun r => r.1.typeName = q.1.name with
      | none =>
        obtain ⟨r, there, hides⟩ := hidden
        have other := List.find?_eq_none.mp search r there
        simp [hides] at other
      | some r =>
        obtain ⟨hides, front, rest, split, first⟩ := List.find?_eq_some_iff_append.mp search
        exact ⟨r, front, rest, split, by simpa using hides, by simpa using first⟩
    have same := (find?_name_of_hidden distinct split hides first).symm.trans found
    have other := name_ne_of_before distinct split r (by simp)
    exact other (Option.some.inj same ▸ rfl)
  · exact find?_name_of_unhidden distinct split

end

section

variable {p : ProgramIdl} {text : String} (unnamed : ∀ q ∈ p.instructions, q.1.name ≠ text)

include unnamed

theorem goesBy_iff_of_unnamed : ∀ q ∈ p.instructions, GoesBy text q ↔ q.1.typeName = text := by
  intro q there
  simp [GoesBy, unnamed q there]

theorem find?_eq_some_iff_of_unnamed {q : Instruction × AccountGroup} :
    p.find? text = some q ↔ q.1.typeName = text ∧
      ∃ before after, p.instructions = before ++ q :: after ∧
        ∀ r ∈ before, r.1.typeName ≠ text := by
  have goesBy := goesBy_iff_of_unnamed unnamed
  rw [find?_eq_some_iff]
  constructor
  · rintro ⟨found, before, after, split, first⟩
    refine ⟨(goesBy q (by simp [split])).mp found, before, after, split, fun r hr => ?_⟩
    exact (goesBy r (by simp [split, hr])).not.mp (first r hr)
  · rintro ⟨found, before, after, split, first⟩
    refine ⟨.inr found, before, after, split, fun r hr => ?_⟩
    exact (goesBy r (by simp [split, hr])).not.mpr (first r hr)

theorem find?_eq_none_iff_of_unnamed :
    p.find? text = none ↔ ∀ q ∈ p.instructions, q.1.typeName ≠ text := by
  rw [find?_eq_none_iff]
  exact forall₂_congr fun q there => (goesBy_iff_of_unnamed unnamed q there).not

end

/-- With distinct names, an instruction is found under its own just if no earlier one has it as its
type name, in which case the first of these is found. So it is where the name has a separator or a
small letter in front. A text that is no one's name finds the first instruction with this type
name. -/
theorem instructions_found (p : ProgramIdl)
    (distinct : (p.instructions.map fun q => q.1.name).Nodup) :
    (∀ before q after, p.instructions = before ++ q :: after →
      (p.find? q.1.name = some q ↔ ∀ r ∈ before, r.1.typeName ≠ q.1.name) ∧
        ∀ front r rest, before = front ++ r :: rest → r.1.typeName = q.1.name →
          (∀ x ∈ front, x.1.typeName ≠ q.1.name) → p.find? q.1.name = some r) ∧
    (∀ q ∈ p.instructions, IsNoTypeName q.1.name → p.find? q.1.name = some q) ∧
    ∀ text, (∀ q ∈ p.instructions, q.1.name ≠ text) →
      (∀ q, p.find? text = some q ↔ q.1.typeName = text ∧
        ∃ before after, p.instructions = before ++ q :: after ∧
          ∀ r ∈ before, r.1.typeName ≠ text) ∧
      (p.find? text = none ↔ ∀ q ∈ p.instructions, q.1.typeName ≠ text) := by
  refine ⟨?_, ?_, ?_⟩
  · intro before q after split
    refine ⟨find?_name_eq_some_self_iff distinct split, ?_⟩
    rintro front r rest rfl hides first
    exact find?_name_of_hidden distinct split hides first
  · intro q there plain
    obtain ⟨before, after, split⟩ := List.append_of_mem there
    exact find?_name_of_unhidden distinct split fun r _ => plain.ne_upperCamelCase r.1.name
  · intro text unnamed
    exact ⟨fun q => find?_eq_some_iff_of_unnamed unnamed, find?_eq_none_iff_of_unnamed unnamed⟩

/-! ### A hidden instruction -/

def hiddenInstructions : List (Instruction × AccountGroup) :=
  [(⟨"do_thing", []⟩, ⟨"Open", "Open<'info>", []⟩),
    (⟨"DoThing", []⟩, ⟨"Close", "Close<'info>", []⟩)]

/-- Of two instructions the second one was given the type name of the first. -/
theorem instructions_found_hidden :
    let p : ProgramIdl := ⟨"vault", none, hiddenInstructions⟩
    (p.instructions.map fun q => q.1.name).Nodup ∧
      (p.find? "DoThing").map (fun q => q.2.name) = some "Open" ∧
      (p.find? "do_thing").map (fun q => q.2.name) = some "Open" ∧
      p.find? "Thing" = none := by
  intro p
  have distinct : (p.instructions.map fun q => q.1.name).Nodup := by decide
  have type : Text.upperCamelCase "do_thing" = "DoThing" := by decide +kernel
  have type' : Text.upperCamelCase "DoThing" = "DoThing" := by decide +kernel
  obtain ⟨named, plain, unnamed⟩ := instructions_found p distinct
  have hidden := (named [_] _ [] rfl).2 [] _ [] rfl type (by simp)
  have shown := plain (⟨"do_thing", []⟩, ⟨"Open", "Open<'info>", []⟩) (List.mem_cons_self ..)
    (by decide)
  have none := (unnamed "Thing" (by simp [p, hiddenInstructions])).2.mpr
    (by simp [p, hiddenInstructions, Instruction.typeName, type, type'])
  exact ⟨distinct, congrArg (Option.map fun q => q.2.name) hidden,
    congrArg (Option.map fun q => q.2.name) shown, none⟩

end AnchorHarness.Program
