import Mathlib.Data.List.Induction
import Mathlib.Data.List.Nodup

/-!
# First occurrences

The elements of a list under keys. An element is a first one if no element before it has its key,
and a repeated one otherwise. There is one first element for every key that occurs.
-/

namespace AnchorHarness.Occurrence

variable {α κ : Type} [DecidableEq κ]

/-- None of some elements has the key of the given one. -/
def newAfter (key : α → κ) (before : List α) (x : α) : Bool := !before.any fun y => key y = key x

/-- The elements of a list that, with those before them, are as asked for. -/
def picked (keep : List α → α → Bool) (xs : List α) : List α :=
  (xs.zipIdx.filter fun (x, place) => keep (xs.take place) x).map Prod.fst

/-- The elements that are the first of their key. -/
def firsts (key : α → κ) (xs : List α) : List α := picked (newAfter key) xs

/-- The elements whose key occurs before them. -/
def repeats (key : α → κ) (xs : List α) : List α :=
  picked (fun before x => !newAfter key before x) xs

theorem newAfter_iff (key : α → κ) (before : List α) (x : α) :
    newAfter key before x = true ↔ ∀ y ∈ before, key y ≠ key x := by
  simp [newAfter]

theorem newAfter_eq_false_iff (key : α → κ) (before : List α) (x : α) :
    newAfter key before x = false ↔ ∃ y ∈ before, key y = key x := by
  simp [newAfter]

/-- Whether an element is picked does not hang on what comes after it. -/
theorem picked_append_singleton (keep : List α → α → Bool) (xs : List α) (x : α) :
    picked keep (xs ++ [x]) = picked keep xs ++ if keep xs x then [x] else [] := by
  have front : xs.zipIdx.filter (fun (y, place) => keep ((xs ++ [x]).take place) y) =
      xs.zipIdx.filter fun (y, place) => keep (xs.take place) y := by
    refine List.filter_congr fun y hy => ?_
    have inside : y.2 < xs.length := (List.mem_zipIdx' hy).1
    simp only [List.take_append_of_le_length (Nat.le_of_lt inside)]
  have whole : (xs ++ [x]).take xs.length = xs := by simp
  rw [picked, List.zipIdx_append, List.filter_append, front, List.map_append]
  simp only [Nat.zero_add, List.zipIdx_singleton, List.filter_singleton, whole]
  cases keep xs x <;> rfl

theorem firsts_append_singleton (key : α → κ) (xs : List α) (x : α) :
    firsts key (xs ++ [x]) = firsts key xs ++ if newAfter key xs x then [x] else [] :=
  picked_append_singleton (newAfter key) xs x

theorem repeats_append_singleton (key : α → κ) (xs : List α) (x : α) :
    repeats key (xs ++ [x]) = repeats key xs ++ if newAfter key xs x then [] else [x] := by
  rw [repeats, picked_append_singleton]
  cases newAfter key xs x <;> rfl

theorem length_firsts_add_repeats (key : α → κ) (xs : List α) :
    (firsts key xs).length + (repeats key xs).length = xs.length := by
  induction xs using List.reverseRecOn with
  | nil => rfl
  | append_singleton xs x ih =>
    rw [firsts_append_singleton, repeats_append_singleton]
    cases newAfter key xs x <;> simp <;> omega

/-- What stands at a place is picked by what stands before the place. -/
theorem mem_picked {keep : List α → α → Bool} {xs : List α} {place : Nat} {x : α}
    (hx : xs[place]? = some x) (hk : keep (xs.take place) x = true) : x ∈ picked keep xs := by
  have listed : (x, place) ∈ xs.zipIdx := List.mem_zipIdx_iff_getElem?.mpr hx
  exact List.mem_map.mpr ⟨(x, place), List.mem_filter.mpr ⟨listed, hk⟩, rfl⟩

theorem mem_of_mem_firsts (key : α → κ) (xs : List α) (x : α) (h : x ∈ firsts key xs) : x ∈ xs := by
  obtain ⟨⟨y, place⟩, hy, rfl⟩ := List.mem_map.mp h
  exact List.fst_mem_of_mem_zipIdx (List.mem_of_mem_filter hy)

theorem exists_mem_firsts (key : α → κ) (xs : List α) (x : α) (h : x ∈ xs) :
    ∃ y ∈ firsts key xs, key y = key x := by
  induction xs using List.reverseRecOn generalizing x with
  | nil => simp at h
  | append_singleton xs z ih =>
    rw [firsts_append_singleton]
    have among (y : α) (hy : y ∈ xs) : ∃ u ∈ firsts key xs ++ if newAfter key xs z then [z] else [],
        key u = key y := by
      obtain ⟨u, hu, hk⟩ := ih y hy
      exact ⟨u, List.mem_append_left _ hu, hk⟩
    rw [List.mem_append, List.mem_singleton] at h
    obtain h | rfl := h
    · exact among x h
    · cases hn : newAfter key xs x with
      | true => exact ⟨x, by simp, rfl⟩
      | false =>
        obtain ⟨y, hy, hk⟩ := (newAfter_eq_false_iff key xs x).mp hn
        rw [hn] at among
        obtain ⟨u, hu, hk'⟩ := among y hy
        exact ⟨u, hu, hk'.trans hk⟩

theorem mem_map_firsts (key : α → κ) (xs : List α) (k : κ) :
    k ∈ (firsts key xs).map key ↔ k ∈ xs.map key := by
  rw [List.mem_map, List.mem_map]
  constructor
  · rintro ⟨x, hx, rfl⟩
    exact ⟨x, mem_of_mem_firsts key xs x hx, rfl⟩
  · rintro ⟨x, hx, rfl⟩
    exact exists_mem_firsts key xs x hx

theorem mem_iff_firsts_or_repeats (key : α → κ) (xs : List α) (x : α) :
    x ∈ xs ↔ x ∈ firsts key xs ∨ x ∈ repeats key xs := by
  induction xs using List.reverseRecOn with
  | nil => simp [firsts, repeats, picked]
  | append_singleton xs z ih =>
    rw [firsts_append_singleton, repeats_append_singleton]
    cases newAfter key xs z with
    | true => simp [ih, or_assoc, or_comm]
    | false => simp [ih, or_assoc]

theorem firsts_append_repeats_perm (key : α → κ) (xs : List α) :
    (firsts key xs ++ repeats key xs).Perm xs := by
  induction xs using List.reverseRecOn with
  | nil => exact .refl _
  | append_singleton xs x ih =>
    rw [firsts_append_singleton, repeats_append_singleton]
    cases newAfter key xs x with
    | false =>
      rw [if_neg Bool.false_ne_true, if_neg Bool.false_ne_true, List.append_nil, ← List.append_assoc]
      exact ih.append_right [x]
    | true =>
      have moved : (firsts key xs ++ [x] ++ repeats key xs).Perm
          (firsts key xs ++ repeats key xs ++ [x]) := by
        rw [List.append_assoc, List.append_assoc]
        exact List.perm_append_comm.append_left _
      rw [if_pos rfl, if_pos rfl, List.append_nil]
      exact moved.trans (ih.append_right [x])

theorem nodup_map_firsts (key : α → κ) (xs : List α) : ((firsts key xs).map key).Nodup := by
  induction xs using List.reverseRecOn with
  | nil => exact List.nodup_nil
  | append_singleton xs x ih =>
    rw [firsts_append_singleton]
    cases hn : newAfter key xs x
    · simpa using ih
    · have fresh : key x ∉ (firsts key xs).map key := by
        intro h
        obtain ⟨y, hy, hk⟩ := List.mem_map.mp h
        exact (newAfter_iff key xs x).mp hn y (mem_of_mem_firsts key xs y hy) hk
      rw [if_pos rfl, List.map_append, List.map_singleton, ← List.concat_eq_append]
      exact ih.concat fresh

/-- Where no key occurs twice, an element is found by its key. -/
theorem find?_of_nodup {key : α → κ} {xs : List α} (distinct : (xs.map key).Nodup) {x : α}
    (hx : x ∈ xs) : (xs.find? fun y => key y = key x) = some x := by
  cases hf : xs.find? fun y => key y = key x with
  | none =>
    have absent := List.find?_eq_none.mp hf x hx
    simp at absent
  | some y =>
    have same : key y = key x := by simpa using List.find?_some hf
    rw [List.inj_on_of_nodup_map distinct (List.mem_of_find?_eq_some hf) hx same]

theorem find?_firsts (key : α → κ) (xs : List α) (k : κ) :
    ((firsts key xs).find? fun x => key x = k) = xs.find? fun x => key x = k := by
  induction xs using List.reverseRecOn with
  | nil => rfl
  | append_singleton xs x ih =>
    rw [firsts_append_singleton, List.find?_append, List.find?_append, ih]
    cases hf : xs.find? fun y => key y = k with
    | some y => rfl
    | none =>
      rw [Option.none_or, Option.none_or]
      by_cases hx : key x = k
      · have new : newAfter key xs x = true := by
          rw [newAfter_iff]
          intro y hy
          have other := List.find?_eq_none.mp hf y hy
          rw [hx]
          simpa using other
        rw [if_pos new]
      · split <;> simp [hx]

end AnchorHarness.Occurrence
