import AnchorHarness.Program.Analysis
import Mathlib.Data.List.Infix
import Mathlib.Data.List.TakeWhile

/-!
# The search for the declared address

The search goes through a tree by a stack. It meets the nodes in pre-order, except that it does not
look into a declaration, and stops at the first one with a literal. Where the text of a call holds
the texts of the calls inside it, nothing is lost by that: a declaration has a literal if a call
inside it has one. So the search yields the first literal of the whole tree in pre-order.
-/

namespace AnchorHarness

/-! ### Pre-order -/

namespace Rust.SyntaxNode

mutual
/-- A node before its children, and a child with all that is in it before the next child. -/
def preorder : SyntaxNode → List SyntaxNode
  | .node call children => .node call children :: preorderAll children

def preorderAll : List SyntaxNode → List SyntaxNode
  | [] => []
  | n :: ns => n.preorder ++ preorderAll ns
end

theorem preorder_eq (n : SyntaxNode) : n.preorder = n :: preorderAll n.children := by
  cases n with
  | node call children => rw [preorder, SyntaxNode.children]

mutual
theorem length_preorder (n : SyntaxNode) : n.preorder.length = n.size := by
  cases n with
  | node call children =>
    rw [preorder, size, List.length_cons, length_preorderAll children]

theorem length_preorderAll (ns : List SyntaxNode) : (preorderAll ns).length = totalSize ns := by
  cases ns with
  | nil => rfl
  | cons n ns =>
    rw [preorderAll, totalSize, List.length_append, length_preorder n, length_preorderAll ns]
end

end Rust.SyntaxNode

namespace Program

open Rust (MacroCall Code SyntaxNode SourceFile)
open Rust.SyntaxNode (preorder preorderAll preorder_eq)

/-- The literal that a node declares. -/
def declaredAt? (n : SyntaxNode) : Option String := n.call.bind declaredIn?

def IsDeclaration (n : SyntaxNode) : Prop :=
  ∃ call, n.call = some call ∧ lastSegment call.name = "declare_id"

instance (n : SyntaxNode) : Decidable (IsDeclaration n) :=
  match n with
  | .node none _ => isFalse fun ⟨_, h, _⟩ => nomatch h
  | .node (some call) _ =>
    decidable_of_iff (lastSegment call.name = "declare_id")
      ⟨fun h => ⟨call, rfl, h⟩, fun ⟨_, h, named⟩ => Option.some.inj h ▸ named⟩

mutual
/-- The nodes in pre-order, without those inside a declaration. -/
def reached : SyntaxNode → List SyntaxNode
  | .node call children =>
    .node call children ::
      if IsDeclaration (.node call children) then [] else reachedAll children

def reachedAll : List SyntaxNode → List SyntaxNode
  | [] => []
  | n :: ns => reached n ++ reachedAll ns
end

theorem reached_eq (n : SyntaxNode) :
    reached n = n :: if IsDeclaration n then [] else reachedAll n.children := by
  cases n with
  | node call children => rw [reached, SyntaxNode.children]

theorem reachedAll_append (ms ns : List SyntaxNode) :
    reachedAll (ms ++ ns) = reachedAll ms ++ reachedAll ns := by
  induction ms with
  | nil => rfl
  | cons m ms ih => rw [List.cons_append, reachedAll, reachedAll, ih, List.append_assoc]

mutual
theorem reached_sublist (n : SyntaxNode) : List.Sublist (reached n) n.preorder := by
  cases n with
  | node call children =>
    rw [reached, preorder, List.cons_sublist_cons]
    split
    · exact List.nil_sublist _
    · exact reachedAll_sublist children

theorem reachedAll_sublist (ns : List SyntaxNode) :
    List.Sublist (reachedAll ns) (preorderAll ns) := by
  cases ns with
  | nil => exact List.Sublist.refl _
  | cons n ns => exact (reached_sublist n).append (reachedAll_sublist ns)
end

theorem declaredAt?_of_not_isDeclaration {n : SyntaxNode} (h : ¬IsDeclaration n) :
    declaredAt? n = none := by
  unfold declaredAt?
  cases hc : n.call with
  | none => rfl
  | some call =>
    have other : lastSegment call.name ≠ "declare_id" := fun named => h ⟨call, hc, named⟩
    exact if_neg other

/-! ### The run of the search -/

/-- A run of the search: the nodes that are taken off the stack, in turn, and the literal. -/
inductive Run : Array SyntaxNode → List SyntaxNode → Option String → Prop where
  | done : Run #[] [] none
  | found {stack : Array SyntaxNode} {node : SyntaxNode} {literal : String} :
      stack.back? = some node → visit node stack.pop = .found literal →
      Run stack [node] (some literal)
  | next {stack rest : Array SyntaxNode} {node : SyntaxNode} {visited : List SyntaxNode}
      {outcome : Option String} :
      stack.back? = some node → visit node stack.pop = .next rest → Run rest visited outcome →
      Run stack (node :: visited) outcome

/-- The search stops, and what it yields is the outcome of its run. -/
theorem exists_run (stack : Array SyntaxNode) : ∃ visited, Run stack visited (search stack) := by
  fun_induction search stack with
  | case1 stack empty =>
    rw [Array.back?_eq_none_iff.mp empty]
    exact ⟨[], .done⟩
  | case2 stack node top literal step => exact ⟨[node], .found top step⟩
  | case3 stack node top rest step ih =>
    obtain ⟨visited, run⟩ := ih
    exact ⟨node :: visited, .next top step run⟩

/-- There is one run from a stack. -/
theorem Run.unique {stack : Array SyntaxNode} {visited visited' : List SyntaxNode}
    {outcome outcome' : Option String} (run : Run stack visited outcome)
    (other : Run stack visited' outcome') : visited' = visited ∧ outcome' = outcome := by
  induction run generalizing visited' outcome' with
  | done =>
    cases other with
    | done => exact ⟨rfl, rfl⟩
    | found top _ => cases top
    | next top _ _ => cases top
  | found top step =>
    cases other with
    | done => cases top
    | found top' step' =>
      cases top.symm.trans top'
      cases step.symm.trans step'
      exact ⟨rfl, rfl⟩
    | next top' step' _ =>
      cases top.symm.trans top'
      cases step.symm.trans step'
  | next top step _ ih =>
    cases other with
    | done => cases top
    | found top' step' =>
      cases top.symm.trans top'
      cases step.symm.trans step'
    | next top' step' run' =>
      cases top.symm.trans top'
      cases step.symm.trans step'
      obtain ⟨rfl, rfl⟩ := ih run'
      exact ⟨rfl, rfl⟩

/-- What a stack still holds for the search, the top first. -/
def pending (stack : Array SyntaxNode) : List SyntaxNode := reachedAll stack.toList.reverse

theorem pending_of_back? {stack : Array SyntaxNode} {node : SyntaxNode}
    (top : stack.back? = some node) : pending stack = reached node ++ pending stack.pop := by
  rw [pending, pending, toList_eq_of_back? top, List.reverse_append]
  rfl

theorem pending_push (below : Array SyntaxNode) (children : List SyntaxNode) :
    pending (below ++ children.reverse) = reachedAll children ++ pending below := by
  rw [pending, pending, Array.toList_appendList, List.reverse_append, List.reverse_reverse,
    reachedAll_append]

/-- A visit that goes on takes one node off what is pending, and the node declares nothing. -/
theorem pending_of_visit {node : SyntaxNode} {below rest : Array SyntaxNode}
    (step : visit node below = .next rest) :
    reached node ++ pending below = node :: pending rest ∧ declaredAt? node = none := by
  rw [reached_eq, List.cons_append]
  have opened (plain : ¬IsDeclaration node) (h : below ++ node.children.reverse = rest) :
      (node :: ((if IsDeclaration node then [] else reachedAll node.children) ++ pending below)) =
        node :: pending rest ∧ declaredAt? node = none := by
    rw [← h, if_neg plain, pending_push]
    exact ⟨rfl, declaredAt?_of_not_isDeclaration plain⟩
  unfold visit at step
  split at step
  · next call hc =>
    split at step
    · next named =>
      split at step
      · cases step
      · next silent =>
        cases step
        have declaration : IsDeclaration node := ⟨call, hc, named⟩
        rw [if_pos declaration]
        refine ⟨rfl, ?_⟩
        simp [declaredAt?, hc, declaredIn?, named, silent]
    · next other =>
      have plain : ¬IsDeclaration node := by
        rintro ⟨_, hc', named⟩
        cases hc.symm.trans hc'
        exact other named
      exact opened plain (Visit.next.inj step)
  · next hc =>
    have plain : ¬IsDeclaration node := by
      rintro ⟨_, hc', -⟩
      cases hc.symm.trans hc'
    exact opened plain (Visit.next.inj step)

theorem declaredAt?_of_visit {node : SyntaxNode} {below : Array SyntaxNode} {literal : String}
    (step : visit node below = .found literal) : declaredAt? node = some literal := by
  unfold visit at step
  split at step
  · next call hc =>
    split at step
    · next named =>
      split at step
      · next found =>
        cases step
        simp [declaredAt?, hc, declaredIn?, named, found]
      · cases step
    · cases step
  · cases step

/-- The nodes were visited up to the first one that declares the outcome, or to the end. -/
structure UpTo (nodes visited : List SyntaxNode) (outcome : Option String) : Prop where
  inOrder : visited <+: nodes
  first : nodes.findSome? declaredAt? = outcome
  last : ∀ literal ∈ outcome, ∃ node, visited.getLast? = some node ∧
    declaredAt? node = some literal
  silent : ∀ n ∈ visited.dropLast, declaredAt? n = none
  exhausted : outcome = none → visited = nodes

theorem UpTo.cons {node : SyntaxNode} {nodes visited : List SyntaxNode} {outcome : Option String}
    (silent : declaredAt? node = none) (h : UpTo nodes visited outcome) :
    UpTo (node :: nodes) (node :: visited) outcome where
  inOrder := (List.prefix_cons_inj node).mpr h.inOrder
  first := by rw [List.findSome?_cons_of_isNone (by rw [silent]; rfl), h.first]
  last := by
    intro literal hl
    obtain ⟨last, hlast, declared⟩ := h.last literal hl
    refine ⟨last, ?_, declared⟩
    rw [List.getLast?_cons, hlast]
    rfl
  silent := by
    intro n hn
    cases visited with
    | nil => simp at hn
    | cons v vs =>
      rw [List.dropLast_cons_of_ne_nil (List.cons_ne_nil v vs), List.mem_cons] at hn
      obtain rfl | hn := hn
      · exact silent
      · exact h.silent n hn
  exhausted := fun none => by rw [h.exhausted none]

/-- A run visits what is pending, one node after the other, up to the first literal. -/
theorem Run.upTo {stack : Array SyntaxNode} {visited : List SyntaxNode} {outcome : Option String}
    (run : Run stack visited outcome) : UpTo (pending stack) visited outcome := by
  induction run with
  | done => exact ⟨List.prefix_rfl, rfl, nofun, nofun, fun _ => rfl⟩
  | @found stack node literal top step =>
    have declared := declaredAt?_of_visit step
    rw [pending_of_back? top, reached_eq, List.cons_append]
    refine ⟨⟨_, rfl⟩, ?_, ?_, nofun, nofun⟩
    · rw [List.findSome?_cons, declared]
    · rintro _ ⟨⟩
      exact ⟨node, rfl, declared⟩
  | next top step _ ih =>
    obtain ⟨taken, silent⟩ := pending_of_visit step
    rw [pending_of_back? top, taken]
    exact ih.cons silent

theorem search_eq_findSome?_reached (tree : SyntaxNode) :
    search #[tree] = (reached tree).findSome? declaredAt? := by
  obtain ⟨visited, run⟩ := exists_run #[tree]
  have whole : pending #[tree] = reached tree := List.append_nil _
  rw [← whole, run.upTo.first]

/-! ### Texts inside texts -/

/-- There is a literal in a text if it has two double quotes. -/
theorem firstLiteral?_eq_none_iff (cs : List Char) :
    firstLiteral? cs = none ↔ cs.count '"' ≤ 1 := by
  have front : (cs.takeWhile (· != '"')).count '"' = 0 := by
    rw [List.count_eq_zero]
    intro there
    simpa using List.mem_takeWhile_imp there
  have parts : cs.count '"' = (cs.dropWhile (· != '"')).count '"' := by
    conv_lhs => rw [← List.takeWhile_append_dropWhile (p := (· != '"')) (l := cs)]
    rw [List.count_append, front, Nat.zero_add]
  rw [parts, firstLiteral?]
  have head := List.head?_dropWhile_not (· != '"') cs
  cases hd : cs.dropWhile (· != '"') with
  | nil => simp
  | cons c rest =>
    rw [hd] at head
    obtain rfl : c = '"' := by simpa using head
    simp only [List.contains_iff_mem, List.count_cons_self]
    split
    · next there =>
      have one := List.count_pos_iff.mpr there
      simp only [reduceCtorEq, false_iff]
      omega
    · next absent =>
      have none := List.count_eq_zero.mpr absent
      simp only [true_iff]
      omega

theorem firstLiteral?_of_isInfix {inner cs : List Char} (inside : inner <:+: cs)
    (h : firstLiteral? cs = none) : firstLiteral? inner = none := by
  rw [firstLiteral?_eq_none_iff] at h ⊢
  exact (inside.count_le '"').trans h

/-- The text of a call holds the texts of the calls that are inside it. -/
def Nested (tree : SyntaxNode) : Prop :=
  ∀ n ∈ tree.preorder, ∀ call ∈ n.call, ∀ m ∈ preorderAll n.children, ∀ inner ∈ m.call,
    inner.text.toList <:+: call.text.toList

/-- Nothing is declared inside a declaration without a literal. -/
theorem declaredAt?_inside {n m : SyntaxNode} (nested : Nested n) (declaration : IsDeclaration n)
    (silent : declaredAt? n = none) (inside : m ∈ preorderAll n.children) :
    declaredAt? m = none := by
  obtain ⟨call, hc, named⟩ := declaration
  have none : firstLiteral? call.text.toList = none := by
    simpa [declaredAt?, hc, declaredIn?, named] using silent
  unfold declaredAt?
  cases hm : m.call with
  | none => rfl
  | some inner =>
    have self : n ∈ n.preorder := by
      rw [preorder_eq]
      exact List.mem_cons_self
    have within := nested n self call hc m inside inner hm
    simp [declaredIn?, firstLiteral?_of_isInfix within none]

mutual
theorem findSome?_reached (n : SyntaxNode) (nested : Nested n) :
    (reached n).findSome? declaredAt? = n.preorder.findSome? declaredAt? := by
  cases n with
  | node call children =>
    rw [reached, preorder]
    simp only [List.findSome?_cons]
    cases hd : declaredAt? (.node call children) with
    | some literal => rfl
    | none =>
      simp only
      split
      · next declaration =>
        have silent (m : SyntaxNode) (hm : m ∈ preorderAll children) : declaredAt? m = none :=
          declaredAt?_inside nested declaration hd hm
        rw [List.findSome?_nil, List.findSome?_eq_none_iff.mpr silent]
      · refine findSome?_reachedAll children fun n hn => nested n ?_
        rw [preorder]
        exact List.mem_cons_of_mem _ hn

theorem findSome?_reachedAll (ns : List SyntaxNode)
    (nested : ∀ n ∈ preorderAll ns, ∀ call ∈ n.call, ∀ m ∈ preorderAll n.children,
      ∀ inner ∈ m.call, inner.text.toList <:+: call.text.toList) :
    (reachedAll ns).findSome? declaredAt? = (preorderAll ns).findSome? declaredAt? := by
  cases ns with
  | nil => rfl
  | cons n ns =>
    rw [preorderAll] at nested
    rw [reachedAll, preorderAll, List.findSome?_append, List.findSome?_append,
      findSome?_reached n fun m hm => nested m (List.mem_append_left _ hm),
      findSome?_reachedAll ns fun m hm => nested m (List.mem_append_right _ hm)]
end

theorem search_eq {tree : SyntaxNode} (nested : Nested tree) :
    search #[tree] = tree.preorder.findSome? declaredAt? :=
  (search_eq_findSome?_reached tree).trans (findSome?_reached tree nested)

/-! ### The trees of files -/

mutual
/-- A parsed file has no calls inside calls. -/
theorem children_of_call (code : Code) :
    ∀ n ∈ code.tree.preorder, n.call = none ∨ n.children = [] := by
  cases code with
  | call c =>
    intro n hn
    rw [Code.tree, preorder, preorderAll, List.mem_singleton] at hn
    subst hn
    exact .inr rfl
  | block body =>
    intro n hn
    rw [Code.tree, preorder, List.mem_cons] at hn
    obtain rfl | hn := hn
    · exact .inl rfl
    · exact children_of_calls body n hn

theorem children_of_calls (code : List Code) :
    ∀ n ∈ preorderAll (Rust.treesOf code), n.call = none ∨ n.children = [] := by
  cases code with
  | nil => exact nofun
  | cons c cs =>
    intro n hn
    rw [Rust.treesOf, preorderAll, List.mem_append] at hn
    obtain hn | hn := hn
    · exact children_of_call c n hn
    · exact children_of_calls cs n hn
end

theorem nested_tree (file : SourceFile) : Nested file.tree := by
  have shape := children_of_call (.block file.code)
  rw [Code.tree] at shape
  intro n hn call hc m hm
  obtain none | childless := shape n hn
  · rw [none] at hc
    cases hc
  · rw [childless] at hm
    cases hm

mutual
theorem findSome?_tree (code : Code) :
    code.tree.preorder.findSome? declaredAt? = code.calls.findSome? declaredIn? := by
  cases code with
  | call c => simp [Code.tree, preorder, preorderAll, Code.calls, declaredAt?, SyntaxNode.call]
  | block body =>
    have blank : declaredAt? (.node none (Rust.treesOf body)) = none := rfl
    rw [Code.tree, preorder, List.findSome?_cons, blank, Code.calls]
    exact findSome?_treesOf body

theorem findSome?_treesOf (code : List Code) :
    (preorderAll (Rust.treesOf code)).findSome? declaredAt? =
      (Rust.callsOf code).findSome? declaredIn? := by
  cases code with
  | nil => rfl
  | cons c cs =>
    rw [Rust.treesOf, preorderAll, Rust.callsOf, List.findSome?_append, List.findSome?_append,
      findSome?_tree c, findSome?_treesOf cs]
end

/-- The search in a file finds the first declaration among its calls in the order of the text. -/
theorem search_tree (file : SourceFile) :
    search #[file.tree] = (Rust.callsOf file.code).findSome? declaredIn? :=
  (search_eq (nested_tree file)).trans (findSome?_tree (.block file.code))

/-! ### Two trees -/

theorem literalIn_eq_or (entry : Option SyntaxNode) (code : SyntaxNode) :
    literalIn entry code = (entry.bind fun tree => search #[tree]).or (search #[code]) := by
  cases entry with
  | none => rfl
  | some tree =>
    rw [literalIn, Option.bind_some]
    cases search #[tree] <;> rfl

theorem literalIn_eq {entry : Option SyntaxNode} {code : SyntaxNode}
    (nested : ∀ tree ∈ entry.toList ++ [code], Nested tree) :
    literalIn entry code =
      (entry.elim [] preorder ++ code.preorder).findSome? declaredAt? := by
  rw [literalIn_eq_or, List.findSome?_append, search_eq (nested code (by simp))]
  cases entry with
  | none => rfl
  | some tree => rw [Option.bind_some, search_eq (nested tree (by simp)), Option.elim_some]

/-- A literal that is no address. -/
def strayCall : MacroCall := ⟨"declare_id", "declare_id!(\"0\")"⟩

theorem search_strayCall : search #[.node (some strayCall) []] = some "0" := by
  rw [search_eq_findSome?_reached]
  decide

theorem parse_stray : Address.parse "0" = .error .notBase58 := rfl

theorem search_blank : search #[.node none []] = none := by
  rw [search_eq_findSome?_reached]
  rfl

theorem addressOf_eq_ok_none (program : String) (literal : Option String) :
    addressOf program literal = .ok none ↔ literal = none := by
  cases literal with
  | none => simp [addressOf]
  | some text => cases hp : Address.parse text <;> simp [addressOf, hp]

/-- The address does not depend on the second tree just if the first one has a literal. -/
theorem exists_other_iff (program : String) (tree code : SyntaxNode) :
    (∃ other, addressOf program (literalIn (some tree) other) ≠
        addressOf program (literalIn (some tree) code)) ↔ search #[tree] = none := by
  have parts (other : SyntaxNode) :
      literalIn (some tree) other = (search #[tree]).or (search #[other]) :=
    literalIn_eq_or (some tree) other
  simp only [parts]
  cases search #[tree] with
  | some literal => simp
  | none =>
    simp only [Option.none_or, iff_true]
    cases hc : search #[code] with
    | none =>
      refine ⟨.node (some strayCall) [], fun same => ?_⟩
      rw [search_strayCall, addressOf_eq_ok_none program none |>.mpr rfl,
        addressOf_eq_ok_none] at same
      cases same
    | some literal =>
      refine ⟨.node none [], fun same => ?_⟩
      rw [search_blank, addressOf_eq_ok_none program none |>.mpr rfl, eq_comm,
        addressOf_eq_ok_none] at same
      cases same

/-- The search for the address goes through the entry tree and then, if that tree is not the only
one and has no literal, through the other. Each search stops, it visits nodes in pre-order, and it
yields the first literal that a declaration has; a declaration without a literal is passed over. The
first literal counts also if it is no address. -/
theorem address_first_in_preorder (program : String) (entry : Option SyntaxNode)
    (code : SyntaxNode) (nested : ∀ tree ∈ entry.toList ++ [code], Nested tree) :
    (∀ tree ∈ entry.toList ++ [code],
      (∃ visited, (∀ nodes outcome, Run #[tree] nodes outcome ↔
            nodes = visited ∧ outcome = search #[tree]) ∧
          UpTo (reached tree) visited (search #[tree]) ∧
          List.Sublist visited tree.preorder ∧ visited.length ≤ tree.size) ∧
        search #[tree] = tree.preorder.findSome? declaredAt?) ∧
      literalIn entry code = (entry.elim [] preorder ++ code.preorder).findSome? declaredAt? ∧
      (∀ before node after literal fault,
        entry.elim [] preorder ++ code.preorder = before ++ node :: after →
        (∀ n ∈ before, declaredAt? n = none) → declaredAt? node = some literal →
        Address.parse literal = .error fault →
        addressOf program (literalIn entry code) =
          .error ⟨.invalidAddress literal fault, some program⟩) ∧
      ∀ tree ∈ entry,
        ((∃ other, addressOf program (literalIn entry other) ≠
            addressOf program (literalIn entry code)) ↔
          ∀ n ∈ tree.preorder, declaredAt? n = none) := by
  have whole := literalIn_eq nested
  refine ⟨?_, whole, ?_, ?_⟩
  · intro tree ht
    obtain ⟨visited, run⟩ := exists_run #[tree]
    have upTo : UpTo (reached tree) visited (search #[tree]) := by
      have pendingTree : pending #[tree] = reached tree := List.append_nil _
      rw [← pendingTree]
      exact run.upTo
    have inOrder := upTo.inOrder.sublist.trans (reached_sublist tree)
    have bound : visited.length ≤ tree.size := by
      rw [← Rust.SyntaxNode.length_preorder]
      exact inOrder.length_le
    refine ⟨⟨visited, ?_, upTo, inOrder, bound⟩, search_eq (nested tree ht)⟩
    intro nodes outcome
    constructor
    · exact run.unique
    · rintro ⟨rfl, rfl⟩
      exact run
  · intro before node after literal fault split silent declared refused
    have first : literalIn entry code = some literal := by
      rw [whole, split, List.findSome?_append, List.findSome?_eq_none_iff.mpr silent,
        Option.none_or, List.findSome?_cons, declared]
    rw [first]
    simp only [addressOf, refused]
  · rintro tree ⟨⟩
    rw [exists_other_iff, search_eq (nested tree (by simp)), List.findSome?_eq_none_iff]

/-! ### A literal that is no address

The entry tree holds a declaration without a literal and, behind it, a literal that is no address.
The other tree declares an address. -/

def entryTree : SyntaxNode :=
  .node none [.node (some ⟨"declare_id", "declare_id!(own!())"⟩)
    [.node (some ⟨"own", "own!()"⟩) []], .node none [.node (some strayCall) []]]

def codeTree : SyntaxNode :=
  .node (some ⟨"declare_id", "declare_id!(\"11111111111111111111111111111111\")"⟩) []

theorem address_first_in_entryTree :
    (∀ tree ∈ [entryTree, codeTree], Nested tree) ∧
      addressOf "vault" (literalIn (some entryTree) codeTree) =
        .error ⟨.invalidAddress "0" .notBase58, some "vault"⟩ ∧
      literalIn none codeTree = some "11111111111111111111111111111111" := by
  have nested : ∀ tree ∈ [entryTree, codeTree], Nested tree := by
    unfold Nested
    decide
  obtain ⟨-, -, refused, -⟩ := address_first_in_preorder "vault" (some entryTree) codeTree nested
  obtain ⟨-, alone, -, -⟩ := address_first_in_preorder "vault" none codeTree
    fun tree ht => nested tree (List.mem_cons_of_mem _ ht)
  refine ⟨nested, ?_, ?_⟩
  · exact refused (entryTree.preorder.take 4) (.node (some strayCall) []) codeTree.preorder "0"
      .notBase58 rfl (by decide) (by decide) parse_stray
  · rw [alone]
    decide

end Program

end AnchorHarness
