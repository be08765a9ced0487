import AnchorHarness.Program.Address
import AnchorHarness.Rust.SyntaxNode

/-!
# The declared address of a program

A program declares its address by a call of `declare_id!` with a string. The tree of a file is
searched by way of a stack of the nodes that are still to be visited, the next one on top. The
children of a node are put on it in reverse, so that the first child is visited next. A declaration
without a string is passed over with all that is in it.
-/

namespace AnchorHarness.Program

open Rust (MacroCall SyntaxNode)

/-- The last segment of a path, blanks included. -/
def lastSegment (path : String) : String :=
  String.ofList ((Text.cutColons path.toList).getLast?.getD [])

/-- The text between the first double quote and the next one. -/
def firstLiteral? (cs : List Char) : Option (List Char) :=
  match cs.dropWhile (· != '"') with
  | [] => none
  | _ :: rest => if rest.contains '"' then some (rest.takeWhile (· != '"')) else none

/-- The address text in a call, if it declares one. -/
def declaredIn? (call : MacroCall) : Option String :=
  if lastSegment call.name = "declare_id" then
    (firstLiteral? call.text.toList).map String.ofList
  else none

/-! ### The search -/

/-- What comes of visiting a node. -/
inductive Visit where
  | found (literal : String)
  /-- The search goes on with this stack. -/
  | next (stack : Array SyntaxNode)

/-- Visits a node that was taken off a stack. -/
def visit (node : SyntaxNode) (below : Array SyntaxNode) : Visit :=
  match node.call with
  | some call =>
    if lastSegment call.name = "declare_id" then
      match firstLiteral? call.text.toList with
      | some literal => .found (String.ofList literal)
      | none => .next below
    else .next (below ++ node.children.reverse)
  | none => .next (below ++ node.children.reverse)

/-- A visit leaves fewer nodes than there were. -/
theorem totalSize_of_visit {node : SyntaxNode} {below stack : Array SyntaxNode}
    (h : visit node below = .next stack) :
    SyntaxNode.totalSize stack.toList < SyntaxNode.totalSize below.toList + node.size := by
  have children := node.size_eq
  have opened : SyntaxNode.totalSize (below ++ node.children.reverse).toList =
      SyntaxNode.totalSize below.toList + SyntaxNode.totalSize node.children := by
    rw [Array.toList_appendList, SyntaxNode.totalSize_append, SyntaxNode.totalSize_reverse]
  unfold visit at h
  split at h
  · split at h
    · split at h
      · cases h
      · cases h
        omega
    · cases h
      omega
  · cases h
    omega

/-- The top of a stack stands behind all that is below it. -/
theorem toList_eq_of_back? {stack : Array SyntaxNode} {node : SyntaxNode}
    (h : stack.back? = some node) : stack.toList = stack.pop.toList ++ [node] := by
  obtain ⟨nodes⟩ := stack
  rw [List.back?_toArray] at h
  obtain ⟨below, rfl⟩ := List.getLast?_eq_some_iff.mp h
  simp

/-- The first literal that is declared in the nodes on a stack, and in their children. -/
def search (stack : Array SyntaxNode) : Option String :=
  match _ : stack.back? with
  | none => none
  | some node =>
    match _ : visit node stack.pop with
    | .found literal => some literal
    | .next rest => search rest
termination_by SyntaxNode.totalSize stack.toList
decreasing_by
  have fewer := totalSize_of_visit ‹visit _ _ = _›
  rw [toList_eq_of_back? ‹stack.back? = _›, SyntaxNode.totalSize_append]
  simp only [SyntaxNode.totalSize]
  omega

/-- The literal that the entry tree declares, or else the one of the other tree. -/
def literalIn (entry : Option SyntaxNode) (code : SyntaxNode) : Option String :=
  match entry with
  | none => search #[code]
  | some tree =>
    match search #[tree] with
    | some literal => some literal
    | none => search #[code]

end AnchorHarness.Program
