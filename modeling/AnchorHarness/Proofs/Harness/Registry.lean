import AnchorHarness.Harness.Roles
import Mathlib.Data.List.Induction
import Mathlib.Data.List.Nodup
import Mathlib.Data.List.Perm.Basic

/-!
# What a registry holds

The roles of a program are the names of its accounts and of its parameters that are addresses, in
the order of the names, and each is bound to the strategy that its last binding gives it. These two
facts fix a registry, so that nothing else of the program or of the bindings plays a part in it.
-/

namespace AnchorHarness.Harness

open Program (ProgramIdl)

/-! ### Bindings -/

/-- The strategy that the last binding of a role gives it. -/
def strategyOf (role : String) (bindings : List (String × Strategy)) : Option Strategy :=
  ((bindings.filter fun b => b.1 = role).getLast?).map Prod.snd

theorem strategyOf_append_singleton (role : String) (bindings : List (String × Strategy))
    (b : String × Strategy) :
    strategyOf role (bindings ++ [b]) = if b.1 = role then some b.2 else strategyOf role bindings := by
  by_cases h : b.1 = role <;> simp [strategyOf, h]

theorem strategyOf_eq_none_iff (role : String) (bindings : List (String × Strategy)) :
    strategyOf role bindings = none ↔ role ∉ bindings.map Prod.fst := by
  simp only [strategyOf, Option.map_eq_none_iff, List.getLast?_eq_none_iff, List.filter_eq_nil_iff,
    decide_eq_true_eq, List.mem_map, not_exists, not_and]

theorem mem_of_strategyOf {role : String} {s : Strategy} {bindings : List (String × Strategy)}
    (h : strategyOf role bindings = some s) : (role, s) ∈ bindings := by
  obtain ⟨b, hb, rfl⟩ := Option.map_eq_some_iff.mp h
  obtain ⟨there, named⟩ := List.mem_filter.mp (List.mem_of_getLast? hb)
  rw [← of_decide_eq_true named]
  exact there

theorem strategyOf_eq_some_iff {bindings : List (String × Strategy)}
    (distinct : (bindings.map Prod.fst).Nodup) (role : String) (s : Strategy) :
    strategyOf role bindings = some s ↔ (role, s) ∈ bindings := by
  refine ⟨mem_of_strategyOf, fun there => ?_⟩
  cases hs : strategyOf role bindings with
  | none =>
    have absent := (strategyOf_eq_none_iff role bindings).mp hs
    exact absurd (List.mem_map_of_mem there) absent
  | some t =>
    have same := List.inj_on_of_nodup_map distinct (mem_of_strategyOf hs) there rfl
    rw [(Prod.mk.inj same).2]

/-- Where no role is bound twice, the order of the bindings plays no part. -/
theorem strategyOf_perm {bindings other : List (String × Strategy)} (perm : bindings.Perm other)
    (distinct : (bindings.map Prod.fst).Nodup) (role : String) :
    strategyOf role bindings = strategyOf role other := by
  have distinct' : (other.map Prod.fst).Nodup := (perm.map Prod.fst).nodup_iff.mp distinct
  ext s
  rw [strategyOf_eq_some_iff distinct, strategyOf_eq_some_iff distinct', perm.mem_iff]

/-! ### Roles -/

theorem mem_map_insertEntry (role other : String) (entries : List Entry) :
    other ∈ (insertEntry role entries).map Prod.fst ↔
      other = role ∨ other ∈ entries.map Prod.fst := by
  induction entries with
  | nil => simp [insertEntry]
  | cons e rest ih =>
    rw [insertEntry]
    split
    · simp
    · split
      · next he => simp [he]
      · simp only [List.map_cons, List.mem_cons, ih, or_left_comm]

theorem mem_roles_add (r : RoleRegistry) (role other : String) :
    other ∈ (r.add role).roles ↔ other = role ∨ other ∈ r.roles :=
  mem_map_insertEntry role other r.entries

theorem mem_roles_foldl_add (roles : List String) (r : RoleRegistry) (role : String) :
    role ∈ (roles.foldl RoleRegistry.add r).roles ↔ role ∈ roles ∨ role ∈ r.roles := by
  induction roles generalizing r with
  | nil => simp
  | cons first roles ih =>
    rw [List.foldl_cons, ih, mem_roles_add, List.mem_cons, or_left_comm, or_assoc]

theorem contains_iff (r : RoleRegistry) (role : String) :
    r.contains role = true ↔ role ∈ r.roles := by
  simp [RoleRegistry.contains, RoleRegistry.roles]

theorem pairwise_roles (r : RoleRegistry) : r.roles.Pairwise (· < ·) :=
  List.pairwise_map.mpr r.ordered

theorem nodup_of_pairwise_lt {xs : List String} (rising : xs.Pairwise (· < ·)) : xs.Nodup := by
  refine rising.imp ?_
  rintro x y hlt rfl
  exact Std.lt_irrefl hlt

theorem eq_of_pairwise_lt {a b : List String} (ha : a.Pairwise (· < ·)) (hb : b.Pairwise (· < ·))
    (same : ∀ x, x ∈ a ↔ x ∈ b) : a = b := by
  have perm : a.Perm b :=
    (List.perm_ext_iff_of_nodup (nodup_of_pairwise_lt ha) (nodup_of_pairwise_lt hb)).mpr same
  refine perm.eq_of_pairwise ?_ ha hb
  intro x y _ _ hxy hyx
  exact absurd (String.lt_trans hxy hyx) Std.lt_irrefl

/-- Its roles and their strategies fix a registry. -/
theorem entries_congr {r q : RoleRegistry} {strategy : String → Option Strategy}
    (roles : ∀ role, role ∈ r.roles ↔ role ∈ q.roles)
    (hr : r.entries = r.roles.map fun role => (role, strategy role))
    (hq : q.entries = q.roles.map fun role => (role, strategy role)) : r.entries = q.entries := by
  have same : r.roles = q.roles := eq_of_pairwise_lt (pairwise_roles r) (pairwise_roles q) roles
  rw [hr, hq, same]

theorem unbound_foldl_add (roles : List String) (r : RoleRegistry)
    (unbound : ∀ e ∈ r.entries, e.2 = none) :
    ∀ e ∈ (roles.foldl RoleRegistry.add r).entries, e.2 = none := by
  induction roles generalizing r with
  | nil => exact unbound
  | cons role roles ih =>
    refine ih (r.add role) fun e he => ?_
    rcases mem_insertEntry he with rfl | he
    · rfl
    · exact unbound e he

/-! ### Strategies -/

theorem entries_bindIfPresent (r : RoleRegistry) (b : String × Strategy) :
    (r.bindIfPresent b).entries = bindEntry b.1 b.2 r.entries := by
  unfold RoleRegistry.bindIfPresent RoleRegistry.bind
  cases h : r.contains b.1 with
  | true => rfl
  | false =>
    have other (e : Entry) (he : e ∈ r.entries) : e.1 ≠ b.1 := by
      simpa using List.any_eq_false.mp h e he
    have same : bindEntry b.1 b.2 r.entries = r.entries.map id :=
      List.map_congr_left fun e he => if_neg (other e he)
    exact (same.trans (List.map_id _)).symm

/-- Bindings change the strategies of a registry and nothing else. -/
theorem entries_foldl_bindIfPresent (bindings : Bindings) (r : RoleRegistry) :
    (bindings.foldl RoleRegistry.bindIfPresent r).entries =
      r.entries.map fun e => (e.1, (strategyOf e.1 bindings).or e.2) := by
  -- The last binding of a role counts, so bindings are added at the end.
  induction bindings using List.reverseRecOn with
  | nil => simp [strategyOf]
  | append_singleton bindings b ih =>
    rw [List.foldl_append, List.foldl_cons, List.foldl_nil, entries_bindIfPresent, ih, bindEntry,
      List.map_map]
    refine List.map_congr_left fun e _ => ?_
    rw [strategyOf_append_singleton]
    by_cases h : b.1 = e.1
    · simp [h]
    · simp [h, Ne.symm h]

/-! ### The registry of a program -/

def rolesOf (p : ProgramIdl) : List String := p.instructions.flatMap rolesOfInstruction

theorem entries_registryOf_eq_map (bindings : Bindings) (p : ProgramIdl) :
    (registryOf bindings p).entries =
      ((rolesOf p).foldl RoleRegistry.add RoleRegistry.empty).roles.map fun role =>
        (role, strategyOf role bindings) := by
  have unbound := unbound_foldl_add (rolesOf p) RoleRegistry.empty (by simp [RoleRegistry.empty])
  rw [RoleRegistry.roles, List.map_map]
  refine (entries_foldl_bindIfPresent bindings _).trans (List.map_congr_left fun e he => ?_)
  rw [unbound e he, Option.or_none]
  rfl

theorem roles_registryOf (bindings : Bindings) (p : ProgramIdl) :
    (registryOf bindings p).roles =
      ((rolesOf p).foldl RoleRegistry.add RoleRegistry.empty).roles := by
  rw [RoleRegistry.roles, entries_registryOf_eq_map, List.map_map]
  exact List.map_id _

theorem entries_registryOf (bindings : Bindings) (p : ProgramIdl) :
    (registryOf bindings p).entries =
      (registryOf bindings p).roles.map fun role => (role, strategyOf role bindings) := by
  rw [roles_registryOf, entries_registryOf_eq_map]

theorem mem_roles_registryOf (bindings : Bindings) (p : ProgramIdl) (role : String) :
    role ∈ (registryOf bindings p).roles ↔ role ∈ rolesOf p := by
  rw [roles_registryOf, mem_roles_foldl_add]
  simp [RoleRegistry.roles, RoleRegistry.empty]

/-- Programs with the same roles have the same registry, if the bindings give every role the same
strategy. -/
theorem entries_registryOf_congr {bindings other : Bindings} {p q : ProgramIdl}
    (roles : ∀ role, role ∈ rolesOf p ↔ role ∈ rolesOf q)
    (strategies : ∀ role, strategyOf role bindings = strategyOf role other) :
    (registryOf bindings p).entries = (registryOf other q).entries := by
  refine entries_congr (fun role => ?_) ?_ (entries_registryOf other q)
  · rw [mem_roles_registryOf, mem_roles_registryOf, roles]
  · rw [entries_registryOf]
    simp only [strategies]

end AnchorHarness.Harness
