/-!
# Cutting a text

A text is cut once, at the first separator, or at every separator. Both cuts are undone by joining.
-/

namespace AnchorHarness.Text

/-- What stands before and after the first `sep`, if there is one. -/
def cutFirst (sep : Char) : List Char → Option (List Char × List Char)
  | [] => none
  | c :: cs => if c = sep then some ([], cs) else (cutFirst sep cs).map fun p => (c :: p.1, p.2)

theorem cutFirst_append {sep : Char} {cs before after : List Char}
    (h : cutFirst sep cs = some (before, after)) : before ++ sep :: after = cs := by
  induction cs generalizing before with
  | nil => simp [cutFirst] at h
  | cons c cs ih =>
    rw [cutFirst] at h
    split at h
    · next hc =>
      simp only [Option.some.injEq, Prod.mk.injEq] at h
      rw [← h.1, ← h.2, hc]
      rfl
    · obtain ⟨p, hp, he⟩ := Option.map_eq_some_iff.1 h
      simp only [Prod.mk.injEq] at he
      rw [he.2.symm] at ih ⊢
      rw [← he.1, List.cons_append, ih hp]

theorem cutFirst_eq_some_iff (sep : Char) (cs before after : List Char) :
    cutFirst sep cs = some (before, after) ↔
      sep ∈ cs ∧ cs.takeWhile (· ≠ sep) = before ∧ (cs.dropWhile (· ≠ sep)).drop 1 = after := by
  induction cs generalizing before with
  | nil => simp [cutFirst]
  | cons c cs ih =>
    rw [cutFirst]
    by_cases h : c = sep
    · simp [h]
    · rw [if_neg h, Option.map_eq_some_iff, List.takeWhile_cons_of_pos (by simpa using h),
        List.dropWhile_cons_of_pos (by simpa using h), List.mem_cons]
      constructor
      · rintro ⟨⟨inner, behind⟩, hc, he⟩
        cases he
        obtain ⟨hm, ht, hd⟩ := (ih inner).mp hc
        exact ⟨.inr hm, congrArg (c :: ·) ht, hd⟩
      · rintro ⟨hm, rfl, hd⟩
        have hm := hm.resolve_left (Ne.symm h)
        exact ⟨(_, after), (ih _).mpr ⟨hm, rfl, hd⟩, rfl⟩

/-- Puts an element in front of the first piece. -/
def consToFirst {α : Type} (a : α) : List (List α) → List (List α)
  | [] => [[a]]
  | piece :: pieces => (a :: piece) :: pieces

/-- The pieces between the separators, which are dropped; there is always one piece. -/
def cutAll {α : Type} (isSeparator : α → Bool) : List α → List (List α)
  | [] => [[]]
  | a :: as =>
    if isSeparator a then [] :: cutAll isSeparator as
    else consToFirst a (cutAll isSeparator as)

/-- The pieces between the double colons, read from the left. -/
def cutColons : List Char → List (List Char)
  | [] => [[]]
  | ':' :: ':' :: cs => [] :: cutColons cs
  | c :: cs => consToFirst c (cutColons cs)

end AnchorHarness.Text
