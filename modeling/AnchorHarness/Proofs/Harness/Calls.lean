import AnchorHarness.Proofs.Harness.Registry
import Mathlib.Data.List.Dedup
import Mathlib.Data.List.TakeWhile

/-!
# Calls on a registry

Calls on an empty registry leave it with the roles that they add, each with the strategy of the last
call that binds it, where a call that binds a role before it is added is refused. The order of the
calls plays no other part.
-/

namespace AnchorHarness.Harness

/-! ### Calls -/

inductive Call where
  | add (role : String)
  | bind (role : String) (strategy : Strategy)
  deriving DecidableEq, Repr

/-- The registry after a call, which is left as it is when it refuses the call. -/
def Call.after (r : RoleRegistry) : Call → RoleRegistry
  | .add role => r.add role
  | .bind role strategy => r.bindIfPresent (role, strategy)

def registryAfter (calls : List Call) : RoleRegistry := calls.foldl Call.after .empty

theorem registryAfter_append (calls : List Call) (call : Call) :
    registryAfter (calls ++ [call]) = call.after (registryAfter calls) := by
  rw [registryAfter, List.foldl_append]
  rfl

def Call.added? : Call → Option String
  | .add role => some role
  | .bind _ _ => none

/-- The strategy that a call binds a role to. -/
def Call.strategy? (role : String) : Call → Option Strategy
  | .add _ => none
  | .bind other strategy => if other = role then some strategy else none

/-- The strategy of the last call that binds the role, those before it is added left out. -/
def lastBind (role : String) (calls : List Call) : Option Strategy :=
  ((calls.dropWhile (· ≠ .add role)).filterMap (Call.strategy? role)).getLast?

/-! ### The last strategy -/

theorem dropWhile_add_eq_nil_iff (role : String) (calls : List Call) :
    calls.dropWhile (· ≠ .add role) = [] ↔ .add role ∉ calls := by
  rw [List.dropWhile_eq_nil_iff]
  constructor
  · intro other there
    have ne := of_decide_eq_true (other _ there)
    exact ne rfl
  · intro absent call there
    apply decide_eq_true
    intro same
    exact absent (same ▸ there)

theorem lastBind_eq_none_of_not_mem {role : String} {calls : List Call}
    (absent : .add role ∉ calls) : lastBind role calls = none := by
  rw [lastBind, (dropWhile_add_eq_nil_iff role calls).mpr absent]
  rfl

/-- Behind the call that adds the role, the last of the calls that bind it counts. -/
theorem lastBind_append {role : String} {calls : List Call} (added : .add role ∈ calls)
    (call : Call) :
    lastBind role (calls ++ [call]) = (call.strategy? role).or (lastBind role calls) := by
  have ne : calls.dropWhile (· ≠ .add role) ≠ [] := by
    intro nil
    exact (dropWhile_add_eq_nil_iff role calls).mp nil added
  rw [lastBind, List.dropWhile_append, if_neg (by simpa using ne), List.filterMap_append,
    List.getLast?_append, lastBind]
  cases h : call.strategy? role with
  | none => simp [h]
  | some s => simp [h]

theorem lastBind_append_add (role other : String) (calls : List Call) :
    lastBind role (calls ++ [.add other]) = lastBind role calls := by
  by_cases added : .add role ∈ calls
  · rw [lastBind_append added]
    rfl
  · have nil := (dropWhile_add_eq_nil_iff role calls).mpr added
    rw [lastBind_eq_none_of_not_mem added, lastBind, List.dropWhile_append, nil]
    by_cases same : other = role
    · rw [same]
      simp [Call.strategy?]
    · simp [same]

theorem lastBind_append_bind (role other : String) (strategy : Strategy) (calls : List Call) :
    lastBind role (calls ++ [.bind other strategy]) =
      if other = role ∧ .add role ∈ calls then some strategy else lastBind role calls := by
  by_cases added : .add role ∈ calls
  · rw [lastBind_append added]
    by_cases same : other = role
    · rw [if_pos ⟨same, added⟩, Call.strategy?, if_pos same]
      rfl
    · rw [if_neg fun h => same h.1, Call.strategy?, if_neg same]
      rfl
  · have absent : .add role ∉ calls ++ [.bind other strategy] := by simpa using added
    rw [if_neg fun h => added h.2, lastBind_eq_none_of_not_mem absent,
      lastBind_eq_none_of_not_mem added]

theorem lastBind_of_split {role : String} {strategy : Strategy} {before behind : List Call}
    (added : .add role ∈ before) (last : ∀ t, .bind role t ∉ behind) :
    lastBind role (before ++ .bind role strategy :: behind) = some strategy := by
  -- The calls behind the last are added one by one, and none of them changes the answer.
  induction behind using List.reverseRecOn with
  | nil => rw [lastBind_append_bind, if_pos ⟨rfl, added⟩]
  | append_singleton behind call ih =>
    have rest := ih fun t there => last t (List.mem_append_left _ there)
    rw [← List.cons_append, ← List.append_assoc]
    cases call with
    | add other => rw [lastBind_append_add, rest]
    | bind other t =>
      have ne : other ≠ role := by
        intro same
        exact last t (by simp [same])
      rw [lastBind_append_bind, if_neg fun h => ne h.1, rest]

theorem exists_split_of_lastBind {role : String} {strategy : Strategy} {calls : List Call}
    (found : lastBind role calls = some strategy) :
    ∃ before behind, calls = before ++ .bind role strategy :: behind ∧
      .add role ∈ before ∧ ∀ t, .bind role t ∉ behind := by
  induction calls using List.reverseRecOn with
  | nil => cases found
  | append_singleton calls call ih =>
    -- Either this call is the one, or it stands behind the one and does not bind the role.
    cases call with
    | add other =>
      rw [lastBind_append_add] at found
      obtain ⟨before, behind, rfl, added, last⟩ := ih found
      exact ⟨before, behind ++ [.add other], by simp, added, by simpa using last⟩
    | bind other t =>
      rw [lastBind_append_bind] at found
      by_cases here : other = role ∧ .add role ∈ calls
      · rw [if_pos here] at found
        obtain ⟨rfl, added⟩ := here
        obtain rfl := Option.some.inj found
        exact ⟨calls, [], rfl, added, by simp⟩
      · rw [if_neg here] at found
        obtain ⟨before, behind, rfl, added, last⟩ := ih found
        have ne : role ≠ other := by
          intro same
          exact here ⟨same.symm, List.mem_append_left _ added⟩
        exact ⟨before, behind ++ [.bind other t], by simp, added, by simpa [ne] using last⟩

theorem lastBind_eq_some_iff (role : String) (strategy : Strategy) (calls : List Call) :
    lastBind role calls = some strategy ↔
      ∃ before behind, calls = before ++ .bind role strategy :: behind ∧
        .add role ∈ before ∧ ∀ t, .bind role t ∉ behind := by
  constructor
  · intro found
    exact exists_split_of_lastBind found
  · intro ⟨before, behind, split, added, last⟩
    rw [split]
    exact lastBind_of_split added last

/-! ### What a call leaves -/

theorem ext_entries {r q : RoleRegistry} (same : r.entries = q.entries) : r = q := by
  cases r
  cases q
  cases same
  rfl

theorem insertEntry_of_mem {role : String} {entries : List Entry} (ordered : Ordered entries)
    (there : role ∈ entries.map Prod.fst) : insertEntry role entries = entries := by
  induction entries with
  | nil => cases there
  | cons e rest ih =>
    obtain ⟨above, ordered⟩ := List.pairwise_cons.mp ordered
    rcases List.mem_cons.mp there with here | there
    · rw [insertEntry, if_neg (here ▸ String.lt_irrefl role), if_pos here]
    · obtain ⟨f, hf, rfl⟩ := List.mem_map.mp there
      have lt : e.1 < f.1 := above f hf
      have ne : f.1 ≠ e.1 := (Std.ne_of_lt lt).symm
      rw [insertEntry, if_neg (String.lt_asymm lt), if_neg ne, ih ordered there]

theorem add_of_mem {r : RoleRegistry} {role : String} (there : role ∈ r.roles) : r.add role = r :=
  ext_entries (insertEntry_of_mem r.ordered there)

theorem roles_bindIfPresent (r : RoleRegistry) (binding : String × Strategy) :
    (r.bindIfPresent binding).roles = r.roles := by
  rw [RoleRegistry.roles, RoleRegistry.roles, entries_bindIfPresent, bindEntry, List.map_map]
  apply List.map_congr_left
  intro e _
  show (if e.1 = binding.1 then (e.1, some binding.2) else e).1 = e.1
  split <;> rfl

theorem bind_of_mem {r : RoleRegistry} {role : String} (there : role ∈ r.roles)
    (strategy : Strategy) : r.bind role strategy = .ok (r.bindIfPresent (role, strategy)) := by
  have contained := (contains_iff r role).mpr there
  rw [RoleRegistry.bindIfPresent, RoleRegistry.bind, if_pos contained]

theorem bind_of_not_mem {r : RoleRegistry} {role : String} (absent : role ∉ r.roles)
    (strategy : Strategy) :
    r.bind role strategy = .error ⟨role⟩ ∧ r.bindIfPresent (role, strategy) = r := by
  have missing : ¬ r.contains role = true := fun h => absent ((contains_iff r role).mp h)
  rw [RoleRegistry.bindIfPresent, RoleRegistry.bind, if_neg missing]
  exact ⟨rfl, rfl⟩

/-! ### What a run of calls leaves -/

theorem mem_roles_registryAfter (calls : List Call) (role : String) :
    role ∈ (registryAfter calls).roles ↔ .add role ∈ calls := by
  induction calls using List.reverseRecOn with
  | nil => simp [registryAfter, RoleRegistry.roles, RoleRegistry.empty]
  | append_singleton calls call ih =>
    rw [registryAfter_append, List.mem_append, List.mem_singleton, ← ih]
    cases call with
    | add other => rw [Call.after, mem_roles_add, or_comm, Call.add.injEq]
    | bind other strategy => simp [Call.after, roles_bindIfPresent]

theorem strategy_registryAfter (calls : List Call) :
    ∀ e ∈ (registryAfter calls).entries, e.2 = lastBind e.1 calls := by
  induction calls using List.reverseRecOn with
  | nil =>
    intro e he
    cases he
  | append_singleton calls call ih =>
    intro e he
    rw [registryAfter_append] at he
    cases call with
    | add role =>
      rw [lastBind_append_add]
      -- A role that is there keeps its strategy, and a new one has none.
      by_cases there : role ∈ (registryAfter calls).roles
      · rw [Call.after, add_of_mem there] at he
        exact ih e he
      · rcases mem_insertEntry he with rfl | he
        · have absent := (mem_roles_registryAfter calls role).not.mp there
          exact (lastBind_eq_none_of_not_mem absent).symm
        · exact ih e he
    | bind role strategy =>
      rw [Call.after, entries_bindIfPresent] at he
      obtain ⟨f, hf, rfl⟩ := List.mem_map.mp he
      have added : .add f.1 ∈ calls :=
        (mem_roles_registryAfter calls f.1).mp (List.mem_map_of_mem hf)
      by_cases same : f.1 = role
      · rw [if_pos same, lastBind_append_bind, if_pos ⟨same.symm, added⟩]
      · rw [if_neg same, lastBind_append_bind, if_neg fun h => same h.1.symm]
        exact ih f hf

theorem entries_registryAfter (calls : List Call) :
    (registryAfter calls).entries =
      (registryAfter calls).roles.map fun role => (role, lastBind role calls) := by
  rw [RoleRegistry.roles, List.map_map]
  calc (registryAfter calls).entries
      = (registryAfter calls).entries.map id := (List.map_id _).symm
    _ = (registryAfter calls).entries.map ((fun role => (role, lastBind role calls)) ∘ Prod.fst) := by
        apply List.map_congr_left
        intro e he
        exact Prod.ext rfl (strategy_registryAfter calls e he)

theorem size_registryAfter (calls : List Call) :
    (registryAfter calls).size = (calls.filterMap Call.added?).dedup.length := by
  have distinct := nodup_of_pairwise_lt (pairwise_roles (registryAfter calls))
  have same (role : String) :
      role ∈ (registryAfter calls).roles ↔ role ∈ (calls.filterMap Call.added?).dedup := by
    rw [mem_roles_registryAfter, List.mem_dedup, List.mem_filterMap]
    constructor
    · intro there
      exact ⟨_, there, rfl⟩
    · intro ⟨call, there, adds⟩
      cases call with
      | add other => exact Option.some.inj adds ▸ there
      | bind other strategy => cases adds
  have perm := (List.perm_ext_iff_of_nodup distinct (List.nodup_dedup _)).mpr same
  rw [RoleRegistry.size, ← perm.length_eq, RoleRegistry.roles, List.length_map]

theorem entries_registryAfter_congr {calls others : List Call}
    (roles : ∀ role, .add role ∈ calls ↔ .add role ∈ others)
    (strategies : ∀ role, lastBind role calls = lastBind role others) :
    (registryAfter calls).entries = (registryAfter others).entries := by
  have here := entries_registryAfter calls
  simp only [strategies] at here
  apply entries_congr _ here (entries_registryAfter others)
  intro role
  rw [mem_roles_registryAfter, mem_roles_registryAfter, roles]

/-- A registry knows the roles that were added, in order and once each. To bind any other role is
refused and changes nothing; of the calls that bind a role after it was added the last one counts.
Calls that agree in this leave the same entries, in whichever order they are made. -/
theorem registry_after_calls :
    (∀ (calls : List Call) (role : String),
      (role ∈ (registryAfter calls).roles ↔ .add role ∈ calls) ∧
        ((registryAfter calls).contains role = true ↔ .add role ∈ calls)) ∧
    (∀ (calls : List Call) (role : String) (strategy : Strategy), .add role ∉ calls →
      (registryAfter calls).bind role strategy = .error ⟨role⟩ ∧
        registryAfter (calls ++ [.bind role strategy]) = registryAfter calls) ∧
    (∀ (calls : List Call) (role : String) (strategy : Strategy), .add role ∈ calls →
      (registryAfter calls).bind role strategy =
          .ok (registryAfter (calls ++ [.bind role strategy])) ∧
        registryAfter (calls ++ [.add role]) = registryAfter calls) ∧
    (∀ calls : List Call, (registryAfter calls).entries =
      (registryAfter calls).roles.map fun role => (role, lastBind role calls)) ∧
    (∀ (calls : List Call) (role : String) (strategy : Strategy),
      lastBind role calls = some strategy ↔
        ∃ before behind, calls = before ++ .bind role strategy :: behind ∧
          .add role ∈ before ∧ ∀ t, .bind role t ∉ behind) ∧
    (∀ calls : List Call, (registryAfter calls).roles.Pairwise (· < ·) ∧
      (registryAfter calls).entries.map Prod.fst = (registryAfter calls).roles ∧
      (registryAfter calls).roles.length = (registryAfter calls).size ∧
      (registryAfter calls).size = (calls.filterMap Call.added?).dedup.length) ∧
    ∀ calls others : List Call, (∀ role, .add role ∈ calls ↔ .add role ∈ others) →
      (∀ role, lastBind role calls = lastBind role others) →
      (registryAfter calls).entries = (registryAfter others).entries := by
  refine ⟨?_, ?_, ?_, ?_, ?_, ?_, ?_⟩
  · intro calls role
    have there := mem_roles_registryAfter calls role
    exact ⟨there, (contains_iff _ role).trans there⟩
  · intro calls role strategy absent
    have missing := (mem_roles_registryAfter calls role).not.mpr absent
    rw [registryAfter_append]
    exact bind_of_not_mem missing strategy
  · intro calls role strategy added
    have there := (mem_roles_registryAfter calls role).mpr added
    rw [registryAfter_append, registryAfter_append]
    exact ⟨bind_of_mem there strategy, add_of_mem there⟩
  · intro calls
    exact entries_registryAfter calls
  · intro calls role strategy
    exact lastBind_eq_some_iff role strategy calls
  · intro calls
    exact ⟨pairwise_roles _, rfl, List.length_map _, size_registryAfter calls⟩
  · intro calls others roles strategies
    exact entries_registryAfter_congr roles strategies

/-- Runs with a call that binds too early and with calls in another order. -/
theorem registry_after_calls_vault :
    let calls := [.bind "vault" .keypair, .add "vault", .add "mint", .bind "vault" .pdaStore]
    let others := [.add "mint", .add "vault", .bind "vault" .tokenStore, .bind "vault" .pdaStore]
    RoleRegistry.empty.bind "vault" .keypair = .error ⟨"vault"⟩ ∧
      registryAfter [.bind "vault" .keypair] = .empty ∧
      registryAfter (calls ++ [.add "vault"]) = registryAfter calls ∧
      (registryAfter calls).entries = [("mint", none), ("vault", some .pdaStore)] ∧
      (registryAfter others).entries = (registryAfter calls).entries := by
  intro calls others
  obtain ⟨-, refused, taken, -, -, -, order⟩ := registry_after_calls
  obtain ⟨error, left⟩ := refused [] "vault" .keypair (by decide)
  have again := (taken calls "vault" .keypair (by decide)).2
  have roles (role : String) : .add role ∈ others ↔ .add role ∈ calls := by
    simp [calls, others, or_comm]
  have strategies (role : String) : lastBind role others = lastBind role calls := by
    by_cases vault : role = "vault"
    · rw [vault]
      decide
    · by_cases mint : role = "mint"
      · rw [mint]
        decide
      · have absent : .add role ∉ calls := by simp [calls, vault, mint]
        rw [lastBind_eq_none_of_not_mem absent,
          lastBind_eq_none_of_not_mem ((roles role).not.mpr absent)]
  exact ⟨error, left, again, by decide, order others calls roles strategies⟩

end AnchorHarness.Harness
