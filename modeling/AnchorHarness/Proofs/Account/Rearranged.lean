import AnchorHarness.Account.Constraint
import AnchorHarness.Proofs.Rust.ArgumentLists

/-!
# Rearranged attributes

What the attributes of a field declare of its account's life is joined from what each argument
declares. Joining is commutative and associative, so that neither the order of the arguments nor the
order of the attributes plays a part, and more attributes declare what either part declares.
-/

namespace AnchorHarness.Account

open Rust (IsArgument listed attributeArguments attributePath emptyArguments)
open Text (trimmed)

/-! ### Joining many -/

/-- What any of several declares. -/
def joinAll (lives : List Lifecycle) : Lifecycle := lives.foldl Lifecycle.join .steady

instance : Std.Associative Lifecycle.join := ⟨Lifecycle.join_assoc⟩

theorem join_steady (life : Lifecycle) : life.join .steady = life := by
  rw [Lifecycle.join_comm, Lifecycle.steady_join]

theorem joinAll_append (lives others : List Lifecycle) :
    joinAll (lives ++ others) = (joinAll lives).join (joinAll others) := by
  rw [joinAll, List.foldl_append, ← joinAll]
  calc others.foldl Lifecycle.join (joinAll lives)
      = others.foldl Lifecycle.join ((joinAll lives).join .steady) := by rw [join_steady]
    _ = (joinAll lives).join (joinAll others) := List.foldl_assoc

theorem joinAll_perm {lives others : List Lifecycle} (perm : lives.Perm others) :
    joinAll lives = joinAll others := by
  apply perm.foldl_eq'
  intro a _ b _ life
  rw [Lifecycle.join_assoc, Lifecycle.join_comm a b, ← Lifecycle.join_assoc]

theorem joinAll_steady {lives : List Lifecycle} (steady : ∀ life ∈ lives, life = .steady) :
    joinAll lives = .steady := by
  induction lives with
  | nil => rfl
  | cons life lives ih =>
    have first : life = .steady := steady life (List.mem_cons_self ..)
    have rest := ih fun l hl => steady l (List.mem_cons_of_mem life hl)
    rw [← List.singleton_append, joinAll_append, rest, first]
    rfl

/-! ### Attributes -/

theorem lifecycle_append (attributes others : List String) :
    lifecycle (attributes ++ others) = (lifecycle attributes).join (lifecycle others) := by
  rw [lifecycle, List.map_append]
  exact joinAll_append _ _

theorem lifecycle_perm {attributes others : List String} (perm : attributes.Perm others) :
    lifecycle attributes = lifecycle others :=
  joinAll_perm (perm.map lifecycleOfAttribute)

/-! ### Arguments -/

/-- What one argument declares, blanks around it included. -/
def lifecycleOfArgument (argument : String) : Lifecycle :=
  lifecycleOfKey (argumentKey (trimmed argument))

theorem attributePath_listed (path : String) (arguments : List String) (comma : Bool) :
    attributePath (listed path arguments comma) = attributePath path := by
  rw [attributePath, attributePath, Rust.toList_listed]
  induction path.toList with
  | nil => rfl
  | cons c cs ih =>
    have tail := String.ofList_inj.mp ih
    rw [List.cons_append, List.takeWhile_cons, List.takeWhile_cons, tail]

theorem joinAll_append_of_empty {arguments empty : List String} (blank : ∀ a ∈ empty, a = "") :
    joinAll ((arguments ++ empty).map lifecycleOfArgument) =
      joinAll (arguments.map lifecycleOfArgument) := by
  have steady : ∀ life ∈ empty.map lifecycleOfArgument, life = .steady := by
    intro life hl
    obtain ⟨a, ha, rfl⟩ := List.mem_map.mp hl
    rw [blank a ha]
    decide
  rw [List.map_append, joinAll_append, joinAll_steady steady, join_steady]

/-- A blank argument at the end is dropped, and declares nothing. -/
theorem joinAll_attributeArguments {path : String} {front : List String} {last : String}
    (plain : '(' ∉ path.toList) (each : ∀ a ∈ front ++ [last], IsArgument a.toList) :
    joinAll ((attributeArguments (listed path (front ++ [last]) false)).map
        (lifecycleOfKey ∘ argumentKey)) =
      joinAll ((front ++ [last]).map lifecycleOfArgument) := by
  have read : (lifecycleOfKey ∘ argumentKey) ∘ trimmed = lifecycleOfArgument := rfl
  have alone : [last].map lifecycleOfArgument = [lifecycleOfKey (argumentKey (trimmed last))] := rfl
  rw [Rust.attributeArguments_listed plain each, List.map_append, List.map_append, List.map_map,
    read, alone, joinAll_append, joinAll_append]
  by_cases blank : trimmed last = ""
  · have nothing : lifecycleOfKey (argumentKey "") = .steady := by decide
    rw [if_pos blank, blank, nothing]
    rfl
  · rw [if_neg blank]
    rfl

theorem lifecycleOfAttribute_listed {path : String} {arguments : List String} {comma : Bool}
    (plain : '(' ∉ path.toList) (each : ∀ a ∈ arguments, IsArgument a.toList) :
    lifecycleOfAttribute (listed path arguments comma) =
      if attributePath path = "account" then joinAll (arguments.map lifecycleOfArgument)
      else .steady := by
  have empty : ∀ a ∈ emptyArguments arguments comma, a = "" := fun a ha => Rust.eq_empty_of_mem ha
  have each' := Rust.isArgument_append_empty each comma
  have ne := Rust.append_emptyArguments_ne_nil arguments comma
  rw [lifecycleOfAttribute, attributePath_listed, ← joinAll_append_of_empty empty, Rust.listed_eq]
  generalize arguments ++ emptyArguments arguments comma = all at ne each'
  obtain ⟨front, last, rfl⟩ := (List.eq_nil_or_concat' all).resolve_left ne
  exact congrArg (fun life => if attributePath path = "account" then life else .steady)
    (joinAll_attributeArguments plain each')

/-- An argument list is cut into the arguments that it was joined from, and every text is cut
without loss. So neither the order of the arguments nor that of the attributes decides on the
lifecycle, and two lists of attributes have together what either of them has. -/
theorem argumentLists_rearranged :
    (∀ (path : String) (arguments : List String) (comma : Bool), '(' ∉ path.toList →
      (∀ a ∈ arguments, IsArgument a.toList) →
      (∀ last ∈ arguments.getLast?, trimmed last ≠ "") → (comma = true → arguments ≠ []) →
      attributeArguments (listed path arguments comma) = arguments.map trimmed) ∧
    (∀ text : String, '(' ∈ text.toList → text.toList.getLast? = some ')' →
      ∃ path front last, '(' ∉ path.toList ∧ text = listed path (front ++ [last]) false ∧
        attributeArguments text =
          front.map trimmed ++ if trimmed last = "" then [] else [trimmed last]) ∧
    (∀ (path : String) (arguments others : List String) (comma comma' : Bool)
      (before behind : List String), '(' ∉ path.toList →
      (∀ a ∈ arguments, IsArgument a.toList) → arguments.Perm others →
      lifecycle (before ++ listed path arguments comma :: behind) =
        lifecycle (before ++ listed path others comma' :: behind)) ∧
    (∀ attributes others : List String, attributes.Perm others →
      lifecycle attributes = lifecycle others) ∧
    ∀ attributes others : List String,
      (lifecycle (attributes ++ others)).hasInit =
          ((lifecycle attributes).hasInit || (lifecycle others).hasInit) ∧
        (lifecycle (attributes ++ others)).hasClose =
          ((lifecycle attributes).hasClose || (lifecycle others).hasClose) := by
  refine ⟨?_, ?_, ?_, ?_, ?_⟩
  · intro path arguments comma plain each filled some
    exact Rust.attributeArguments_listed_filled plain each filled some
  · intro text opens closes
    exact Rust.exists_listed opens closes
  · intro path arguments others comma comma' before behind plain each perm
    have each' : ∀ a ∈ others, IsArgument a.toList := fun a ha => each a (perm.mem_iff.mpr ha)
    have same : lifecycleOfAttribute (listed path arguments comma) =
        lifecycleOfAttribute (listed path others comma') := by
      rw [lifecycleOfAttribute_listed plain each, lifecycleOfAttribute_listed plain each',
        joinAll_perm (perm.map lifecycleOfArgument)]
    rw [lifecycle, lifecycle, List.map_append, List.map_append, List.map_cons, List.map_cons, same]
  · intro attributes others perm
    exact lifecycle_perm perm
  · intro attributes others
    rw [lifecycle_append]
    exact ⟨rfl, rfl⟩

/-- A list with brackets inside of an argument, and one that closes more brackets than it opens. -/
theorem argumentLists_rearranged_vault :
    let arguments := ["init", " seeds = [a, b(c)]", " close = user "]
    let others := [" close = user ", "init", " seeds = [a, b(c)]"]
    attributeArguments (listed "account" arguments true) =
        ["init", "seeds = [a, b(c)]", "close = user"] ∧
      attributeArguments "account(init, bump], )" = ["init", "bump],"] ∧
      (∃ path front last, '(' ∉ path.toList ∧
        "account(init, bump], )" = listed path (front ++ [last]) false ∧
        attributeArguments "account(init, bump], )" =
          front.map trimmed ++ if trimmed last = "" then [] else [trimmed last]) ∧
      lifecycle ["account(mut)", listed "account" arguments true] = ⟨true, true⟩ ∧
      lifecycle ["account(mut)", listed "account" arguments true] =
        lifecycle ["account(mut)", listed "account" others false] ∧
      lifecycle ["account(mut)", listed "account" arguments true] =
        lifecycle [listed "account" arguments true, "account(mut)"] := by
  intro arguments others
  obtain ⟨back, every, reordered, attributes, -⟩ := argumentLists_rearranged
  have plain : '(' ∉ "account".toList := by decide
  have each : ∀ a ∈ arguments, IsArgument a.toList := by decide +kernel
  have filled : ∀ last ∈ arguments.getLast?, trimmed last ≠ "" := by decide +kernel
  have perm : arguments.Perm others := by decide
  have cut := back "account" arguments true plain each filled fun _ => List.cons_ne_nil _ _
  have trims : arguments.map trimmed = ["init", "seeds = [a, b(c)]", "close = user"] := by
    decide +kernel
  exact ⟨cut.trans trims, by decide +kernel,
    every "account(init, bump], )" (by decide) (by decide +kernel), by decide +kernel,
    reordered "account" arguments others true false ["account(mut)"] [] plain each perm,
    attributes _ _ (List.Perm.swap _ _ _)⟩

end AnchorHarness.Account
