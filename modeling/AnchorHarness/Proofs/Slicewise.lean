import AnchorHarness.Text.Cut
import Mathlib.Data.List.Forall2
import Mathlib.Data.List.TakeWhile

/-!
# Slice by slice

A relation of two lists that passes to the same slices of both passes to all that is cut out by
tests which the two lists answer alike.
-/

namespace AnchorHarness

section

variable {α β : Type}

theorem length_eq_of_map_eq {γ : Type} {f : α → γ} {g : β → γ} {as : List α} {bs : List β}
    (h : as.map f = bs.map g) : as.length = bs.length := by
  have length := congrArg List.length h
  rwa [List.length_map, List.length_map] at length

theorem takeWhile_eq_take (p : α → Bool) (l : List α) :
    l.takeWhile p = l.take ((l.map p).takeWhile id).length := by
  induction l with
  | nil => rfl
  | cons a l ih => cases hp : p a <;> simp [hp, ← ih]

theorem dropWhile_eq_drop (p : α → Bool) (l : List α) :
    l.dropWhile p = l.drop ((l.map p).takeWhile id).length := by
  induction l with
  | nil => rfl
  | cons a l ih => cases hp : p a <;> simp [hp, ← ih]

/-- A list up to the first element that passes the test, and the pieces behind. -/
theorem cutAll_eq (p : α → Bool) (l : List α) :
    Text.cutAll p l = l.takeWhile (!p ·) ::
      match l.dropWhile (!p ·) with
      | [] => []
      | _ :: rest => Text.cutAll p rest := by
  induction l with
  | nil => rfl
  | cons a l ih =>
    cases hp : p a with
    | true => simp [Text.cutAll, hp]
    | false =>
      rw [Text.cutAll, hp, if_neg (by decide), ih, List.takeWhile_cons_of_pos (by simp [hp]),
        List.dropWhile_cons_of_pos (by simp [hp])]
      rfl

end

structure Slicewise {α β : Type} (R : List α → List β → Prop) : Prop where
  take : ∀ {as bs}, R as bs → ∀ n, R (as.take n) (bs.take n)
  drop : ∀ {as bs}, R as bs → ∀ n, R (as.drop n) (bs.drop n)

namespace Slicewise

variable {α β : Type} {R : List α → List β → Prop} {p : α → Bool} {q : β → Bool} {as : List α}
  {bs : List β}

/-- It is enough that a related list can be split where the first one is. -/
theorem of_split (split : ∀ {xs ys : List α} {bs : List β}, R (xs ++ ys) bs → ∃ zs zs',
    bs = zs ++ zs' ∧ zs.length = xs.length ∧ zs'.length = ys.length ∧ R xs zs ∧ R ys zs') :
    Slicewise R := by
  have cut {as : List α} {bs : List β} (r : R as bs) (n : Nat) :
      R (as.take n) (bs.take n) ∧ R (as.drop n) (bs.drop n) := by
    rw [← List.take_append_drop n as] at r
    obtain ⟨zs, zs', rfl, front, behind, left, right⟩ := split r
    rw [List.length_take] at front
    rw [List.length_drop] at behind
    by_cases inside : n ≤ as.length
    · have length : zs.length = n := by omega
      rw [List.take_left' length, List.drop_left' length]
      exact ⟨left, right⟩
    · obtain rfl : zs' = [] := List.eq_nil_of_length_eq_zero (by omega)
      have short : zs.length ≤ n := by omega
      rw [List.append_nil, List.take_of_length_le short, List.drop_of_length_le short]
      exact ⟨left, right⟩
  exact ⟨fun r n => (cut r n).1, fun r n => (cut r n).2⟩

theorem takeWhile (h : Slicewise R) (r : R as bs) (agree : as.map p = bs.map q) :
    R (as.takeWhile p) (bs.takeWhile q) := by
  rw [takeWhile_eq_take p as, takeWhile_eq_take q bs, agree]
  exact h.take r _

theorem dropWhile (h : Slicewise R) (r : R as bs) (agree : as.map p = bs.map q) :
    R (as.dropWhile p) (bs.dropWhile q) := by
  rw [dropWhile_eq_drop p as, dropWhile_eq_drop q bs, agree]
  exact h.drop r _

theorem dropWhile_agree (agree : as.map p = bs.map q) :
    (as.dropWhile p).map p = (bs.dropWhile q).map q := by
  rw [dropWhile_eq_drop p as, dropWhile_eq_drop q bs, List.map_drop, List.map_drop, agree]

theorem trim (h : Slicewise R) (r : R as bs) (agree : as.map p = bs.map q) :
    R ((as.dropWhile p).reverse.dropWhile p).reverse
      ((bs.dropWhile q).reverse.dropWhile q).reverse := by
  have behind : (as.dropWhile p).reverse.map p = (bs.dropWhile q).reverse.map q := by
    rw [List.map_reverse, List.map_reverse, dropWhile_agree agree]
  have length := length_eq_of_map_eq (dropWhile_agree agree)
  rw [dropWhile_eq_drop p (as.dropWhile p).reverse, dropWhile_eq_drop q (bs.dropWhile q).reverse,
    behind, List.drop_reverse, List.drop_reverse, List.reverse_reverse, List.reverse_reverse,
    length]
  exact h.take (h.dropWhile r agree) _

theorem cutAll (h : Slicewise R) (r : R as bs) (agree : as.map p = bs.map q) :
    List.Forall₂ R (Text.cutAll p as) (Text.cutAll q bs) := by
  induction hn : as.length using Nat.strongRecOn generalizing as bs with
  | ind n ih =>
    have before : as.map (!p ·) = bs.map (!q ·) := by
      have opposite := congrArg (List.map (! ·)) agree
      rwa [List.map_map, List.map_map] at opposite
    have behind := dropWhile_agree before
    have rest := h.dropWhile r before
    rw [cutAll_eq, cutAll_eq]
    refine .cons (h.takeWhile r before) ?_
    have shorter : (as.dropWhile (!p ·)).length ≤ n :=
      hn ▸ (List.dropWhile_sublist _).length_le
    generalize as.dropWhile (!p ·) = as' at behind rest shorter
    generalize bs.dropWhile (!q ·) = bs' at behind rest
    cases as' with
    | nil =>
      obtain rfl := List.map_eq_nil_iff.mp behind.symm
      exact .nil
    | cons a as' =>
      cases bs' with
      | nil => cases behind
      | cons b bs' =>
        have agree' : as'.map p = bs'.map q := by
          have opposite := congrArg (List.map (! ·)) (List.cons.inj behind).2
          simpa [List.map_map, Function.comp_def] using opposite
        have less : as'.length < n := by
          simp only [List.length_cons] at shorter
          omega
        exact ih as'.length less (h.drop rest 1) agree' rfl

end Slicewise

end AnchorHarness
