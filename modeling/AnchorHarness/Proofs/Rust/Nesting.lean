import AnchorHarness.Rust.Tree

/-!
# Matching brackets

What reading one more token does to the open groups, and from it what a whole reading does. The
trees of a list of tokens hold just these tokens in order, and how they are nested depends on the
kinds of the tokens and the texts of words and symbols, not on the gaps between them.
-/

namespace AnchorHarness.Rust

/-! ### The tokens of an unfinished reading -/

theorem tokensOfTrees_append (xs ys : List Tree) :
    tokensOfTrees (xs ++ ys) = tokensOfTrees xs ++ tokensOfTrees ys := by
  induction xs with
  | nil => rfl
  | cons x xs ih => rw [List.cons_append, tokensOfTrees, tokensOfTrees, ih, List.append_assoc]

/-- The tokens that have been read, from the outermost group on. -/
def sourceOf : List OpenGroup → List Tree → List Token
  | [], trees => tokensOfTrees trees.reverse
  | g :: gs, trees => sourceOf gs g.elders ++ g.opening :: tokensOfTrees trees.reverse

def Nesting.source (n : Nesting) : List Token := sourceOf n.groups n.trees

theorem sourceOf_append (gs : List OpenGroup) (youngest elders : List Tree) :
    sourceOf gs (youngest ++ elders) = sourceOf gs elders ++ tokensOfTrees youngest.reverse := by
  cases gs with
  | nil => rw [sourceOf, sourceOf, List.reverse_append, tokensOfTrees_append]
  | cons g gs =>
    rw [sourceOf, sourceOf, List.reverse_append, tokensOfTrees_append, List.append_assoc]
    rfl

theorem sourceOf_cons (gs : List OpenGroup) (t : Tree) (trees : List Tree) :
    sourceOf gs (t :: trees) = sourceOf gs trees ++ t.tokens := by
  have one := sourceOf_append gs [t] trees
  rwa [List.reverse_singleton, tokensOfTrees, tokensOfTrees, List.append_nil] at one

theorem sourceOf_takenBack (g : OpenGroup) (gs : List OpenGroup) (trees : List Tree) :
    sourceOf gs (trees ++ .leaf g.opening :: g.elders) = sourceOf (g :: gs) trees := by
  rw [sourceOf_append, sourceOf_cons, sourceOf, List.append_assoc]
  rfl

theorem source_takeBackAngles (gs : List OpenGroup) (trees : List Tree) :
    (takeBackAngles gs trees).source = sourceOf gs trees := by
  induction gs generalizing trees with
  | nil => rfl
  | cons g gs ih =>
    rw [takeBackAngles]
    split
    · rw [ih, sourceOf_takenBack]
    · rfl

theorem source_push (n : Nesting) (t : Token) : (n.push (.leaf t)).source = n.source ++ [t] :=
  sourceOf_cons n.groups (.leaf t) n.trees

theorem source_closeInnermost (n : Nesting) (d : Delimiter) (t : Token) :
    (n.closeInnermost d t).source = n.source ++ [t] := by
  obtain ⟨groups, trees⟩ := n
  cases groups with
  | nil => exact source_push ⟨[], trees⟩ t
  | cons g gs =>
    rw [Nesting.closeInnermost]
    dsimp only
    split
    · have group : (Tree.group d g.opening trees.reverse t).tokens =
          g.opening :: (tokensOfTrees trees.reverse ++ [t]) := by rw [Tree.tokens]
      rw [Nesting.source, sourceOf_cons, group, Nesting.source, sourceOf, List.append_assoc]
      rfl
    · exact source_push ⟨g :: gs, trees⟩ t

theorem source_read (n : Nesting) (t : Token) : (n.read t).source = n.source ++ [t] := by
  have back := source_takeBackAngles n.groups n.trees
  rw [Nesting.read]
  split
  · rfl
  · split
    · exact source_closeInnermost n .angle t
    · rw [source_closeInnermost, back]
      rfl
    · split
      · rw [source_push, back]
        rfl
      · exact source_push n t

theorem source_foldl_read (n : Nesting) (ts : List Token) :
    (ts.foldl Nesting.read n).source = n.source ++ ts := by
  induction ts generalizing n with
  | nil => exact (List.append_nil _).symm
  | cons t ts ih => rw [List.foldl_cons, ih, source_read, List.append_assoc, List.singleton_append]

theorem tokensOfTrees_takeBackAll (gs : List OpenGroup) (trees : List Tree) :
    tokensOfTrees (takeBackAll gs trees).reverse = sourceOf gs trees := by
  induction gs generalizing trees with
  | nil => rfl
  | cons g gs ih => rw [takeBackAll, ih, sourceOf_takenBack]

/-- The trees of tokens hold the tokens in order. -/
theorem tokensOfTrees_treesOfTokens (ts : List Token) : tokensOfTrees (treesOfTokens ts) = ts := by
  rw [treesOfTokens, tokensOfTrees_takeBackAll]
  exact source_foldl_read ⟨[], []⟩ ts

end AnchorHarness.Rust
