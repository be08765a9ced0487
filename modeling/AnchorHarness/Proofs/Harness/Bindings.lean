import AnchorHarness.Harness.Module
import AnchorHarness.Proofs.Fallible
import AnchorHarness.Proofs.Harness.Registry
import Mathlib.Data.List.Sort

/-!
# Bindings as they are given

Bindings are read off texts of the form `ROLE=STRATEGY`, one after the other. A role is stored as the
last text that names it says, and a role that some text names is unknown if no program has it.
-/

namespace AnchorHarness.Harness

open Program (Idl ProgramIdl)

/-! ### Texts -/

/-- The role that a text names: what stands before its first equals sign, without the blanks at the
ends. -/
def roleText (text : String) : String :=
  String.ofList (Text.trim (text.toList.takeWhile (· ≠ '=')))

/-- What a text has for a strategy: what stands behind its first equals sign, without the blanks at
the ends. -/
def strategyText (text : String) : String :=
  String.ofList (Text.trim ((text.toList.dropWhile (· ≠ '=')).drop 1))

def givenStrategy (role : String) (texts : List String) : Option Strategy :=
  (texts.filter fun text => roleText text = role).getLast?.bind fun text =>
    (Strategy.parse (strategyText text)).toOption

theorem givenStrategy_append_singleton {text : String} {s : Strategy}
    (h : Strategy.parse (strategyText text) = .ok s) (role : String) (texts : List String) :
    givenStrategy role (texts ++ [text]) =
      if roleText text = role then some s else givenStrategy role texts := by
  by_cases hr : roleText text = role
  · simp [givenStrategy, hr, h, Except.toOption]
  · simp [givenStrategy, hr]

theorem parseBinding_eq_ok (text role : String) (s : Strategy) :
    parseBinding text = .ok (role, s) ↔
      '=' ∈ text.toList ∧ roleText text = role ∧ Strategy.parse (strategyText text) = .ok s := by
  unfold parseBinding
  cases hc : Text.cutFirst '=' text.toList with
  | none =>
    have absent : '=' ∉ text.toList := by
      intro there
      have cut := (Text.cutFirst_eq_some_iff '=' text.toList _ _).mpr ⟨there, rfl, rfl⟩
      rw [hc] at cut
      cases cut
    simp [absent]
  | some parts =>
    obtain ⟨there, before, behind⟩ := (Text.cutFirst_eq_some_iff '=' text.toList _ _).mp hc
    simp only [Fallible.map_eq_ok, Prod.mk.injEq, roleText, strategyText, before, behind, there,
      true_and]
    constructor
    · rintro ⟨s', hs, hr, rfl⟩
      exact ⟨hr, hs⟩
    · rintro ⟨hr, hs⟩
      exact ⟨s, hs, hr, rfl⟩

/-! ### Reading -/

theorem parseBindings_append_singleton (texts : List String) (text : String) (b : Bindings) :
    parseBindings (texts ++ [text]) = .ok b ↔
      ∃ before s, parseBindings texts = .ok before ∧ '=' ∈ text.toList ∧
        Strategy.parse (strategyText text) = .ok s ∧
          Table.put (roleText text) s before = b := by
  unfold parseBindings
  rw [List.foldlM_append, Fallible.bind_eq_ok]
  refine exists_congr fun before => ?_
  rw [List.foldlM_cons, Fallible.bind_eq_ok]
  simp only [List.foldlM_nil, Fallible.map_eq_ok, Prod.exists, parseBinding_eq_ok]
  constructor
  · rintro ⟨h, _, ⟨_, s, ⟨there, rfl, hs⟩, rfl⟩, hb⟩
    cases hb
    exact ⟨s, h, there, hs, rfl⟩
  · rintro ⟨s, h, there, hs, rfl⟩
    exact ⟨h, _, ⟨_, s, ⟨there, rfl, hs⟩, rfl⟩, rfl⟩

/-- The bindings say of every role what the last text that names it says. -/
structure Given (texts : List String) (bindings : Bindings) : Prop where
  distinct : (bindings.map Prod.fst).Nodup
  named : ∀ role, role ∈ bindings.map Prod.fst ↔ ∃ text ∈ texts, roleText text = role
  strategies : ∀ role, strategyOf role bindings = givenStrategy role texts

theorem strategyOf_eq_find? {bindings : Bindings} (distinct : (bindings.map Prod.fst).Nodup)
    (role : String) : strategyOf role bindings = Table.find? role bindings := by
  ext s
  rw [strategyOf_eq_some_iff distinct, Table.find?_eq_some_iff distinct]

theorem given_nil : Given [] [] := ⟨List.nodup_nil, by simp, fun _ => rfl⟩

/-- One more text binds the role that it names, and nothing else. -/
theorem Given.put {texts : List String} {bindings : Bindings} (given : Given texts bindings)
    {text : String} {s : Strategy} (h : Strategy.parse (strategyText text) = .ok s) :
    Given (texts ++ [text]) (Table.put (roleText text) s bindings) := by
  have distinct := Table.nodup_keys_put (roleText text) s given.distinct
  refine ⟨distinct, fun role => ?_, fun role => ?_⟩
  · rw [Table.mem_keys_put, given.named]
    constructor
    · rintro (rfl | ⟨t, ht, hr⟩)
      · exact ⟨text, by simp, rfl⟩
      · exact ⟨t, List.mem_append_left _ ht, hr⟩
    · rintro ⟨t, ht, hr⟩
      rcases List.mem_append.mp ht with ht | ht
      · exact .inr ⟨t, ht, hr⟩
      · rw [List.mem_singleton.mp ht] at hr
        exact .inl hr.symm
  · rw [strategyOf_eq_find? distinct, Table.find?_put, givenStrategy_append_singleton h,
      ← given.strategies, strategyOf_eq_find? given.distinct]

theorem given_of_parseBindings {texts : List String} {bindings : Bindings}
    (h : parseBindings texts = .ok bindings) : Given texts bindings := by
  induction texts using List.reverseRecOn generalizing bindings with
  | nil =>
    cases h
    exact given_nil
  | append_singleton texts text ih =>
    obtain ⟨before, s, hb, -, hs, rfl⟩ := (parseBindings_append_singleton texts text bindings).mp h
    exact (ih hb).put hs

theorem exists_strategy_of_parseBindings {texts : List String} {bindings : Bindings}
    (h : parseBindings texts = .ok bindings) :
    ∀ text ∈ texts, '=' ∈ text.toList ∧ ∃ s, Strategy.parse (strategyText text) = .ok s := by
  induction texts using List.reverseRecOn generalizing bindings with
  | nil => simp
  | append_singleton texts text ih =>
    obtain ⟨before, s, hb, there, hs, -⟩ :=
      (parseBindings_append_singleton texts text bindings).mp h
    intro t ht
    rcases List.mem_append.mp ht with ht | ht
    · exact ih hb t ht
    · rw [List.mem_singleton.mp ht]
      exact ⟨there, s, hs⟩

theorem Given.isSome_strategyOf {texts : List String} {bindings : Bindings}
    (given : Given texts bindings) (role : String) :
    (strategyOf role bindings).isSome ↔ ∃ text ∈ texts, roleText text = role := by
  rw [← given.named, ← not_iff_not, Option.not_isSome_iff_eq_none, strategyOf_eq_none_iff]

/-! ### Unknown roles -/

theorem mem_unknownRoles (bindings : Bindings) (idl : Idl) (role : String) :
    role ∈ unknownRoles bindings idl ↔
      role ∈ bindings.map Prod.fst ∧
        ∀ p ∈ idl.programs, role ∉ (registryOf bindings p).roles := by
  simp only [unknownRoles, List.mem_mergeSort, List.mem_filter, Bool.not_eq_true',
    List.any_eq_false, contains_iff, mem_roles_registryOf]

theorem pairwise_unknownRoles {bindings : Bindings} (distinct : (bindings.map Prod.fst).Nodup)
    (idl : Idl) : (unknownRoles bindings idl).Pairwise (· < ·) := by
  unfold unknownRoles
  -- Sorting gives `≤` between neighbours, and the roles are distinct.
  generalize hs : (bindings.map (·.1)).filter _ = roles
  have apart : roles.mergeSort.Nodup := by
    rw [List.Perm.nodup_iff (List.mergeSort_perm roles _), ← hs]
    exact distinct.filter _
  have ordered : roles.mergeSort.Pairwise fun a b => decide (a ≤ b) = true := by
    refine List.pairwise_mergeSort (fun (a b c : String) hab hbc => ?_) (fun (a b : String) => ?_) roles
    · exact decide_eq_true (String.le_trans (of_decide_eq_true hab) (of_decide_eq_true hbc))
    · simpa only [Bool.or_eq_true, decide_eq_true_eq] using String.le_total a b
  refine (ordered.and apart).imp fun {a b} h => ?_
  exact Std.lt_of_le_of_ne (of_decide_eq_true h.1) h.2

/-- A role that is bound takes effect in some program, or it is unknown. -/
theorem bound_iff_not_mem_unknownRoles {texts : List String} {bindings : Bindings}
    (given : Given texts bindings) (idl : Idl) {role : String}
    (named : ∃ text ∈ texts, roleText text = role) :
    (∃ p ∈ idl.programs, ∃ s, (role, some s) ∈ (registryOf bindings p).entries) ↔
      role ∉ unknownRoles bindings idl := by
  obtain ⟨s, hs⟩ := Option.isSome_iff_exists.mp ((given.isSome_strategyOf role).mpr named)
  have effect (p : ProgramIdl) : (∃ s, (role, some s) ∈ (registryOf bindings p).entries) ↔
      role ∈ (registryOf bindings p).roles := by
    rw [entries_registryOf]
    simp only [List.mem_map, Prod.mk.injEq]
    constructor
    · rintro ⟨_, _, there, rfl, -⟩
      exact there
    · intro there
      exact ⟨s, role, there, rfl, hs⟩
  rw [mem_unknownRoles, given.named]
  simp only [effect, named, true_and, not_forall, not_not, exists_prop]

end AnchorHarness.Harness
