import AnchorHarness.Rust.SourceFile

/-!
# Syntax trees

The tree of a file as a search for calls of macros goes through it: a node may be a call, and it has
children in the order of the text. A parsed file has no calls inside calls, but the search does not
rely on it, so the trees here are of any shape.
-/

namespace AnchorHarness.Rust

inductive SyntaxNode where
  | node (call : Option MacroCall) (children : List SyntaxNode)

namespace SyntaxNode

def call : SyntaxNode → Option MacroCall
  | .node call _ => call

def children : SyntaxNode → List SyntaxNode
  | .node _ children => children

mutual
/-- The number of nodes of a tree. -/
def size : SyntaxNode → Nat
  | .node _ children => totalSize children + 1

def totalSize : List SyntaxNode → Nat
  | [] => 0
  | n :: ns => n.size + totalSize ns
end

theorem size_eq (n : SyntaxNode) : n.size = totalSize n.children + 1 := by
  cases n with
  | node call children => rw [size, SyntaxNode.children]

theorem totalSize_append (ms ns : List SyntaxNode) :
    totalSize (ms ++ ns) = totalSize ms + totalSize ns := by
  induction ms with
  | nil => simp [totalSize]
  | cons m ms ih => simp [totalSize, ih, Nat.add_assoc]

theorem totalSize_reverse (ns : List SyntaxNode) : totalSize ns.reverse = totalSize ns := by
  induction ns with
  | nil => rfl
  | cons n ns ih =>
    rw [List.reverse_cons, totalSize_append, ih]
    simp only [totalSize]
    omega

end SyntaxNode

/-! ### The tree of a file -/

mutual
def Code.tree : Code → SyntaxNode
  | .call c => .node (some c) []
  | .block body => .node none (treesOf body)

def treesOf : List Code → List SyntaxNode
  | [] => []
  | c :: cs => c.tree :: treesOf cs
end

def SourceFile.tree (file : SourceFile) : SyntaxNode := .node none (treesOf file.code)

end AnchorHarness.Rust
