/-!
# Tables

A table is a list of keys with their values, in the order in which the keys came. Putting a value
under a key replaces the value that stands there, in its place, so that no key comes to stand twice.
What a table holds is what `find?` says; `find?_put` says it of a table after a change.
-/

namespace AnchorHarness

abbrev Table (κ ν : Type) := List (κ × ν)

namespace Table

variable {κ ν : Type} [DecidableEq κ]

def find? (key : κ) : Table κ ν → Option ν
  | [] => none
  | (k, v) :: rest => if k = key then some v else find? key rest

def put (key : κ) (value : ν) : Table κ ν → Table κ ν
  | [] => [(key, value)]
  | (k, v) :: rest => if k = key then (k, value) :: rest else (k, v) :: put key value rest

def has (key : κ) (t : Table κ ν) : Bool := (find? key t).isSome

theorem find?_put (key other : κ) (value : ν) (t : Table κ ν) :
    find? other (put key value t) = if key = other then some value else find? other t := by
  induction t with
  | nil => simp [put, find?]
  | cons p rest ih =>
    rw [put]
    split
    · next h => by_cases hk : key = other <;> simp_all [find?]
    · next h =>
      by_cases hp : p.1 = other
      · have hk : key ≠ other := fun hk => h (hp.trans hk.symm)
        simp [find?, hp, hk]
      · simp [find?, hp, ih]

theorem map_fst_put (key : κ) (value : ν) (t : Table κ ν) :
    (put key value t).map Prod.fst =
      if key ∈ t.map Prod.fst then t.map Prod.fst else t.map Prod.fst ++ [key] := by
  induction t with
  | nil => rfl
  | cons p rest ih =>
    rw [put]
    by_cases h : p.1 = key
    · simp [h]
    · rw [if_neg h, List.map_cons, ih]
      by_cases hm : key ∈ rest.map Prod.fst <;> simp [hm, Ne.symm h]

theorem mem_keys_put (key other : κ) (value : ν) (t : Table κ ν) :
    other ∈ (put key value t).map Prod.fst ↔ other = key ∨ other ∈ t.map Prod.fst := by
  rw [map_fst_put]
  split
  · next h =>
    refine ⟨.inr, ?_⟩
    rintro (rfl | there)
    · exact h
    · exact there
  · rw [List.mem_append, List.mem_singleton, or_comm]

theorem nodup_keys_put (key : κ) (value : ν) {t : Table κ ν} (distinct : (t.map Prod.fst).Nodup) :
    ((put key value t).map Prod.fst).Nodup := by
  rw [map_fst_put]
  split
  · exact distinct
  · next absent =>
    refine List.nodup_append.mpr ⟨distinct, by simp, ?_⟩
    rintro k there other hk rfl
    rw [List.mem_singleton.mp hk] at there
    exact absent there

theorem find?_eq_some_iff {t : Table κ ν} (distinct : (t.map Prod.fst).Nodup) (key : κ) (value : ν) :
    find? key t = some value ↔ (key, value) ∈ t := by
  induction t with
  | nil => simp [find?]
  | cons p rest ih =>
    obtain ⟨k, v⟩ := p
    have apart := List.nodup_cons.mp distinct
    rw [find?, List.mem_cons]
    split
    · next h =>
      subst h
      have other : (k, value) ∉ rest := by
        intro there
        exact apart.1 (List.mem_map.mpr ⟨_, there, rfl⟩)
      simp [other, eq_comm]
    · next h => simp [ih apart.2, Ne.symm h]

end Table

end AnchorHarness
