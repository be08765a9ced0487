import Mathlib.Data.List.Forall2

/-!
# Computations that may fail

When a chain of computations yields a value, and when it fails and with which error. A list is gone
through in order, so an error is that of the first element that has one.
-/

namespace AnchorHarness.Fallible

variable {α β γ ε : Type}

theorem bind_eq_ok {x : Except ε α} {f : α → Except ε β} {b : β} :
    (x >>= f) = .ok b ↔ ∃ a, x = .ok a ∧ f a = .ok b := by
  cases x with
  | error e => simp [bind, Except.bind]
  | ok a => simp [bind, Except.bind]

theorem bind_eq_error {x : Except ε α} {f : α → Except ε β} {e : ε} :
    (x >>= f) = .error e ↔ x = .error e ∨ ∃ a, x = .ok a ∧ f a = .error e := by
  cases x with
  | error e' => simp [bind, Except.bind]
  | ok a => simp [bind, Except.bind]

theorem map_eq_ok {x : Except ε α} {f : α → β} {b : β} :
    x.map f = .ok b ↔ ∃ a, x = .ok a ∧ f a = b := by
  cases x with
  | error e => simp [Except.map]
  | ok a => simp [Except.map]

theorem map_eq_error {x : Except ε α} {f : α → β} {e : ε} :
    x.map f = .error e ↔ x = .error e := by
  cases x with
  | error e' => simp [Except.map]
  | ok a => simp [Except.map]

theorem mapError_eq_ok {δ : Type} {x : Except ε α} {f : ε → δ} {a : α} :
    x.mapError f = .ok a ↔ x = .ok a := by
  cases x with
  | error e => simp [Except.mapError]
  | ok b => simp [Except.mapError]

theorem mapError_eq_error {δ : Type} {x : Except ε α} {f : ε → δ} {d : δ} :
    x.mapError f = .error d ↔ ∃ e, x = .error e ∧ f e = d := by
  cases x with
  | error e => simp [Except.mapError]
  | ok b => simp [Except.mapError]

theorem mapM_eq_ok {f : α → Except ε β} {xs : List α} {ys : List β} :
    xs.mapM f = .ok ys ↔ List.Forall₂ (fun x y => f x = .ok y) xs ys := by
  induction xs generalizing ys with
  | nil => cases ys <;> simp [pure, Except.pure]
  | cons x xs ih =>
    rw [List.mapM_cons, bind_eq_ok, List.forall₂_cons_left_iff]
    refine exists_congr fun y => ?_
    rw [bind_eq_ok]
    constructor
    · rintro ⟨hy, zs, hz, h⟩
      cases h
      exact ⟨zs, hy, ih.mp hz, rfl⟩
    · rintro ⟨zs, hy, hz, rfl⟩
      exact ⟨hy, zs, ih.mpr hz, rfl⟩

/-- A list fails with the error of the first element that has one. -/
theorem mapM_eq_error {f : α → Except ε β} {xs : List α} {e : ε} :
    xs.mapM f = .error e ↔ ∃ before x after,
      xs = before ++ x :: after ∧ (∀ y ∈ before, ∃ z, f y = .ok z) ∧ f x = .error e := by
  induction xs with
  | nil => simp [pure, Except.pure]
  | cons x xs ih =>
    rw [List.mapM_cons, bind_eq_error]
    constructor
    · rintro (h | ⟨y, hy, h⟩)
      · exact ⟨[], x, xs, rfl, by simp, h⟩
      · rw [bind_eq_error] at h
        obtain h | ⟨ys, -, h⟩ := h
        · obtain ⟨before, x', after, rfl, hb, hx⟩ := ih.mp h
          refine ⟨x :: before, x', after, rfl, ?_, hx⟩
          intro z hz
          rcases List.mem_cons.mp hz with rfl | hz
          · exact ⟨y, hy⟩
          · exact hb z hz
        · cases h
    · rintro ⟨before, x', after, hs, hb, hx⟩
      cases before with
      | nil =>
        cases hs
        exact .inl hx
      | cons z before =>
        cases hs
        obtain ⟨y, hy⟩ := hb x (List.mem_cons_self ..)
        have rest := ih.mpr
          ⟨before, x', after, rfl, fun z hz => hb z (List.mem_cons_of_mem _ hz), hx⟩
        exact .inr ⟨y, hy, bind_eq_error.mpr (.inl rest)⟩

theorem exists_mapM_eq_ok {f : α → Except ε β} {xs : List α} :
    (∃ ys, xs.mapM f = .ok ys) ↔ ∀ x ∈ xs, ∃ y, f x = .ok y := by
  simp only [mapM_eq_ok]
  constructor
  · rintro ⟨ys, h⟩ x hx
    obtain ⟨place, hp, rfl⟩ := List.getElem_of_mem hx
    exact ⟨_, h.get hp (h.length_eq ▸ hp)⟩
  · intro h
    induction xs with
    | nil => exact ⟨[], .nil⟩
    | cons x xs ih =>
      obtain ⟨y, hy⟩ := h x (List.mem_cons_self ..)
      obtain ⟨ys, hys⟩ := ih fun z hz => h z (List.mem_cons_of_mem _ hz)
      exact ⟨y :: ys, .cons hy hys⟩

theorem mapM_eq_ok_iff {f : α → Except ε β} {xs : List α} {ys : List β} :
    xs.mapM f = .ok ys ↔ ∀ i : Nat, xs[i]?.map f = ys[i]?.map .ok := by
  rw [mapM_eq_ok]
  constructor
  · intro h i
    induction h generalizing i with
    | nil => rfl
    | cons same _ ih =>
      cases i with
      | zero => exact congrArg some same
      | succ i => exact ih i
  · intro h
    induction xs generalizing ys with
    | nil =>
      cases ys with
      | nil => exact .nil
      | cons y ys => cases h 0
    | cons x xs ih =>
      cases ys with
      | nil => cases h 0
      | cons y ys => exact .cons (Option.some.inj (h 0)) (ih fun i => h (i + 1))

theorem mapM_eq_error_iff {f : α → Except ε β} {xs : List α} {e : ε} :
    xs.mapM f = .error e ↔ ∃ i : Nat, xs[i]?.map f = some (.error e) ∧
      ∀ k < i, ∃ y, xs[k]?.map f = some (.ok y) := by
  rw [mapM_eq_error]
  constructor
  · rintro ⟨before, x, after, rfl, fine, failed⟩
    refine ⟨before.length, by simp [failed], ?_⟩
    intro k hk
    obtain ⟨y, hy⟩ := fine _ (List.getElem_mem hk)
    exact ⟨y, by simp [List.getElem?_append_left hk, hk, hy]⟩
  · rintro ⟨i, failed, fine⟩
    obtain ⟨x, hx, hf⟩ := Option.map_eq_some_iff.mp failed
    obtain ⟨hi, rfl⟩ := List.getElem?_eq_some_iff.mp hx
    refine ⟨xs.take i, xs[i], xs.drop (i + 1), ?_, ?_, hf⟩
    · rw [List.getElem_cons_drop, List.take_append_drop]
    · intro y hy
      obtain ⟨k, hk, rfl⟩ := List.mem_take_iff_getElem.mp hy
      have before : k < i := (Nat.lt_min.mp hk).1
      obtain ⟨z, hz⟩ := fine k before
      rw [List.getElem?_eq_getElem (Nat.lt_trans before hi)] at hz
      exact ⟨z, Option.some.inj hz⟩

/-- Values that are put together one after the other fail like the list of them. -/
theorem foldlM_map_eq_error {f : α → Except ε β} {g : γ → β → γ} {xs : List α} {c : γ} {e : ε} :
    xs.foldlM (fun c x => (f x).map (g c)) c = .error e ↔ xs.mapM f = .error e := by
  induction xs generalizing c with
  | nil => simp [pure, Except.pure]
  | cons x xs ih =>
    rw [List.foldlM_cons, List.mapM_cons]
    cases f x with
    | error e' => simp [Except.map, bind, Except.bind]
    | ok y =>
      have rest : (xs.mapM f >>= fun ys => pure (y :: ys)) = .error e ↔ xs.mapM f = .error e := by
        simp [bind_eq_error, pure, Except.pure]
      exact ih.trans rest.symm

/-- One more element at the end fails only after all others have yielded a value. -/
theorem mapM_append_singleton_eq_error {f : α → Except ε β} {xs : List α} {x : α} {e : ε} :
    (xs ++ [x]).mapM f = .error e ↔
      xs.mapM f = .error e ∨ (∀ y ∈ xs, ∃ z, f y = .ok z) ∧ f x = .error e := by
  have last (ys : List β) :
      ([x].mapM f >>= fun zs => pure (ys ++ zs)) = .error e ↔ f x = .error e := by
    cases hx : f x <;> simp [hx, bind, Except.bind, pure, Except.pure]
  rw [List.mapM_append, bind_eq_error, ← exists_mapM_eq_ok]
  simp only [last, exists_and_right]

end AnchorHarness.Fallible
