import AnchorHarness.Proofs.Occurrence
import AnchorHarness.Rust.StructIndex
import Mathlib.Data.Finset.Card

/-!
# The order of look-up

The structs of a file stand in an order that can be told without the index: those of a scope, and
then those of each module in it, each module whole before the next. The index holds the first struct
of each name in this order. What is shown of a visit holds for any index to start from, since the
parts of a file are visited one after the other.
-/

namespace AnchorHarness.Rust

open Occurrence (firsts newAfter)

/-! ### The order -/

/-- The structs that stand directly in a scope. -/
def ownStructs (modulePath : List String) : List (Sibling Item) → List StructDefinition
  | [] => []
  | .node (.struct name body) :: rest => ⟨name, modulePath, body⟩ :: ownStructs modulePath rest
  | _ :: rest => ownStructs modulePath rest

/-- The modules with a body that stand directly in a scope. -/
def ownModules : List (Sibling Item) → List (String × List (Sibling Item))
  | [] => []
  | .node (.module name body) :: rest => (name, body) :: ownModules rest
  | _ :: rest => ownModules rest

mutual
/-- The structs of an item that is a module. -/
def Item.flat (modulePath : List String) : Item → List StructDefinition
  | .module name body =>
    ownStructs (modulePath ++ [name]) body ++ flatModules (modulePath ++ [name]) body
  | _ => []

def flatModules (modulePath : List String) : List (Sibling Item) → List StructDefinition
  | [] => []
  | .node item :: rest => item.flat modulePath ++ flatModules modulePath rest
  | .attribute _ :: rest => flatModules modulePath rest
  | .comment :: rest => flatModules modulePath rest
end

/-- The structs of a scope and of the modules in it, in the order of look-up. -/
def flat (modulePath : List String) (items : List (Sibling Item)) : List StructDefinition :=
  ownStructs modulePath items ++ flatModules modulePath items

theorem flatModules_eq (modulePath : List String) (items : List (Sibling Item)) :
    flatModules modulePath items =
      (ownModules items).flatMap fun (name, body) => flat (modulePath ++ [name]) body := by
  induction items with
  | nil => rfl
  | cons sibling rest ih =>
    obtain _ | _ | item := sibling
    · exact ih
    · exact ih
    · cases item with
      | module name body =>
        rw [flatModules, Item.flat, ownModules, List.flatMap_cons, ih]
        rfl
      | moduleDeclaration _ => exact ih
      | struct _ _ => exact ih
      | function _ _ => exact ih
      | other => exact ih

/-- The structs of a scope come first, and then its modules follow in their order. -/
theorem flat_eq (modulePath : List String) (items : List (Sibling Item)) :
    flat modulePath items = ownStructs modulePath items ++
      (ownModules items).flatMap fun (name, body) => flat (modulePath ++ [name]) body := by
  rw [flat, flatModules_eq]

/-- The structs that have a name. -/
def named (met : List StructDefinition) : List StructDefinition := met.filter fun d => d.name ≠ ""

theorem named_append (met others : List StructDefinition) :
    named (met ++ others) = named met ++ named others :=
  List.filter_append met others

/-! ### What an index holds -/

namespace StructIndex

/-- The index holds the first struct of each name among those that have been met, and no place but
theirs. -/
structure Holds (index : StructIndex) (met : List StructDefinition) : Prop where
  definitions : index.definitions = firsts StructDefinition.name (named met)
  places : index.places = index.definitions.zipIdx.map fun (d, place) => (d.name, place)

theorem holds_empty : Holds empty [] := ⟨rfl, rfl⟩

/-- A name has a place if a struct of that name has been met. -/
theorem Holds.find?_eq_none_iff {index : StructIndex} {met : List StructDefinition}
    (h : Holds index met) (name : String) :
    Table.find? name index.places = none ↔ ∀ d ∈ named met, d.name ≠ name := by
  have names := Occurrence.mem_map_firsts StructDefinition.name (named met) name
  rw [index.placed, List.findIdx?_eq_none_iff, h.definitions]
  constructor
  · intro absent d hd hn
    obtain ⟨e, he, hne⟩ := List.mem_map.mp (names.mpr (List.mem_map.mpr ⟨d, hd, hn⟩))
    have other := absent e he
    simp [hne] at other
  · intro absent d hd
    have other := absent d (Occurrence.mem_of_mem_firsts StructDefinition.name (named met) d hd)
    simp [other]

theorem put_eq_append {places : Table String Nat} {name : String}
    (fresh : Table.find? name places = none) (place : Nat) :
    Table.put name place places = places ++ [(name, place)] := by
  induction places with
  | nil => rfl
  | cons p rest ih =>
    rw [Table.find?] at fresh
    split at fresh
    · cases fresh
    · next other => rw [Table.put, if_neg other, ih fresh, List.cons_append]

theorem Holds.register {index : StructIndex} {met : List StructDefinition} (h : Holds index met)
    (d : StructDefinition) : Holds (index.register d) (met ++ [d]) := by
  have unchanged (kept : firsts StructDefinition.name (named (met ++ [d])) =
      firsts StructDefinition.name (named met)) : Holds index (met ++ [d]) :=
    ⟨h.definitions.trans kept.symm, h.places⟩
  by_cases nameless : d.name = ""
  · have passed : named [d] = [] := by simp [named, nameless]
    rw [StructIndex.register, dif_neg fun new => new.1 nameless]
    apply unchanged
    rw [named_append, passed, List.append_nil]
  · have kept : named (met ++ [d]) = named met ++ [d] := by simp [named, nameless]
    by_cases fresh : Table.find? d.name index.places = none
    · have new : newAfter StructDefinition.name (named met) d = true :=
        (Occurrence.newAfter_iff _ _ d).mpr ((h.find?_eq_none_iff d.name).mp fresh)
      rw [StructIndex.register, dif_pos ⟨nameless, fresh⟩]
      refine ⟨?_, ?_⟩
      · show index.definitions ++ [d] = _
        rw [kept, Occurrence.firsts_append_singleton, if_pos new, h.definitions]
      · show Table.put d.name index.definitions.length index.places =
          (index.definitions ++ [d]).zipIdx.map fun (d, place) => (d.name, place)
        rw [put_eq_append fresh, List.zipIdx_append, List.map_append, ← h.places]
        simp
    · have repeated : newAfter StructDefinition.name (named met) d = false := by
        rw [Occurrence.newAfter_eq_false_iff]
        by_contra absent
        apply fresh
        rw [h.find?_eq_none_iff]
        intro e he hn
        exact absent ⟨e, he, hn⟩
      rw [StructIndex.register, dif_neg fun new => fresh new.2]
      apply unchanged
      rw [kept, Occurrence.firsts_append_singleton, repeated]
      simp

theorem Holds.registerScope {index : StructIndex} {met : List StructDefinition}
    (h : Holds index met) (modulePath : List String) (items : List (Sibling Item)) :
    Holds (index.registerScope modulePath items) (met ++ ownStructs modulePath items) := by
  induction items generalizing index met with
  | nil =>
    rw [ownStructs, List.append_nil]
    exact h
  | cons sibling rest ih =>
    obtain _ | _ | item := sibling
    · exact ih h
    · exact ih h
    · cases item with
      | struct name body =>
        have after := ih (h.register ⟨name, modulePath, body⟩)
        rw [List.append_assoc] at after
        exact after
      | module _ _ => exact ih h
      | moduleDeclaration _ => exact ih h
      | function _ _ => exact ih h
      | other => exact ih h

mutual
/-- A visit adds the structs of the module behind those met before. -/
theorem Holds.visit {index : StructIndex} {met : List StructDefinition} (h : Holds index met)
    (modulePath : List String) (item : Item) :
    Holds (index.visit modulePath item) (met ++ item.flat modulePath) := by
  cases item with
  | module name body =>
    rw [StructIndex.visit, Item.flat, ← List.append_assoc]
    exact (h.registerScope (modulePath ++ [name]) body).visitModules (modulePath ++ [name]) body
  | moduleDeclaration _ => simpa [StructIndex.visit, Item.flat] using h
  | struct _ _ => simpa [StructIndex.visit, Item.flat] using h
  | function _ _ => simpa [StructIndex.visit, Item.flat] using h
  | other => simpa [StructIndex.visit, Item.flat] using h

theorem Holds.visitModules {index : StructIndex} {met : List StructDefinition}
    (h : Holds index met) (modulePath : List String) (items : List (Sibling Item)) :
    Holds (index.visitModules modulePath items) (met ++ flatModules modulePath items) := by
  cases items with
  | nil =>
    rw [flatModules, List.append_nil]
    exact h
  | cons sibling rest =>
    obtain _ | _ | item := sibling
    · exact h.visitModules modulePath rest
    · exact h.visitModules modulePath rest
    · rw [StructIndex.visitModules, flatModules, ← List.append_assoc]
      exact (h.visit modulePath item).visitModules modulePath rest
end

theorem holds_build (items : List (Sibling Item)) : Holds (build items) (flat [] items) :=
  (holds_empty.registerScope [] items).visitModules [] items

theorem Holds.nodup_names {index : StructIndex} {met : List StructDefinition}
    (h : Holds index met) : (index.definitions.map StructDefinition.name).Nodup := by
  rw [h.definitions]
  exact Occurrence.nodup_map_firsts StructDefinition.name (named met)

theorem Holds.keys_eq {index : StructIndex} {met : List StructDefinition} (h : Holds index met) :
    index.places.map Prod.fst = index.definitions.map StructDefinition.name := by
  have keys : Prod.fst ∘ (fun (d, place) => (d.name, place)) =
      StructDefinition.name ∘ (Prod.fst : StructDefinition × Nat → StructDefinition) := rfl
  rw [h.places, List.map_map, keys, ← List.map_map, List.zipIdx_map_fst]

theorem Holds.find?_eq_some_iff {index : StructIndex} {met : List StructDefinition}
    (h : Holds index met) (name : String) (place : Nat) :
    Table.find? name index.places = some place ↔
      ∃ d, index.definitions[place]? = some d ∧ d.name = name := by
  have distinct : (index.places.map Prod.fst).Nodup := h.keys_eq ▸ h.nodup_names
  rw [Table.find?_eq_some_iff distinct, h.places, List.mem_map]
  constructor
  · rintro ⟨⟨d, i⟩, hd, same⟩
    cases same
    exact ⟨d, List.mem_zipIdx_iff_getElem?.mp hd, rfl⟩
  · rintro ⟨d, hd, rfl⟩
    exact ⟨(d, place), List.mem_zipIdx_iff_getElem?.mpr hd, rfl⟩

theorem Holds.size_eq {index : StructIndex} {met : List StructDefinition} (h : Holds index met) :
    index.size = ((named met).map StructDefinition.name).toFinset.card := by
  have same : (index.definitions.map StructDefinition.name).toFinset =
      ((named met).map StructDefinition.name).toFinset := by
    ext name
    rw [List.mem_toFinset, List.mem_toFinset, h.definitions, Occurrence.mem_map_firsts]
  rw [← same, List.toFinset_card_of_nodup h.nodup_names, List.length_map, StructIndex.size]

/-- The index of a file is what the order of look-up says: its definitions are the first structs of
each name, a name has the place of its own definition and no other name has one, and looking a name
up yields the first struct of the name. -/
theorem build_eq_flat (items : List (Sibling Item)) :
    (build items).definitions = firsts StructDefinition.name (named (flat [] items)) ∧
      (build items).places.map Prod.fst = (build items).definitions.map StructDefinition.name ∧
      (∀ name, name ∈ (build items).places.map Prod.fst ↔
        name ∈ (named (flat [] items)).map StructDefinition.name) ∧
      (∀ name place, Table.find? name (build items).places = some place ↔
        ∃ d, (build items).definitions[place]? = some d ∧ d.name = name) ∧
      (∀ name, (build items).lookup name =
        (named (flat [] items)).find? fun d => d.name = name) ∧
      (build items).size =
        ((named (flat [] items)).map StructDefinition.name).toFinset.card := by
  have holds := holds_build items
  refine ⟨holds.definitions, holds.keys_eq, ?_, holds.find?_eq_some_iff, ?_, holds.size_eq⟩
  · intro name
    rw [holds.keys_eq, holds.definitions, Occurrence.mem_map_firsts]
  · intro name
    rw [lookup_eq_find?, holds.definitions, Occurrence.find?_firsts]

end StructIndex

end AnchorHarness.Rust
