import AnchorHarness.Proofs.Rust.Nesting
import AnchorHarness.Proofs.Rust.SourceText

/-!
# Trees without spacing

How tokens are nested depends on their kinds and on the texts of words and symbols, not on the gaps
between them. So the trees of respelled tokens are the trees of the tokens, but for the gaps and the
texts of literals and comments.
-/

namespace AnchorHarness.Rust

/-- A token without its gap, and without its text unless the token is plain. -/
def Token.bare (t : Token) : Token := ⟨[], t.kind, if t.kind.isPlain then t.text else []⟩

mutual
def Tree.bare : Tree → Tree
  | .leaf t => .leaf t.bare
  | .group d opening body closing => .group d opening.bare (bareTrees body) closing.bare

def bareTrees : List Tree → List Tree
  | [] => []
  | t :: ts => t.bare :: bareTrees ts
end

theorem bareTrees_eq_map (ts : List Tree) : bareTrees ts = ts.map Tree.bare := by
  induction ts with
  | nil => rfl
  | cons t ts ih => rw [bareTrees, ih, List.map_cons]

/-! ### Tokens -/

mutual
theorem tokens_bare : ∀ t : Tree, t.bare.tokens = t.tokens.map Token.bare
  | .leaf t => by rw [Tree.bare, Tree.tokens, Tree.tokens, List.map_singleton]
  | .group d o b c => by
    rw [Tree.bare, Tree.tokens, Tree.tokens, tokens_bareTrees b, List.map_cons, List.map_append,
      List.map_singleton]

theorem tokens_bareTrees :
    ∀ ts : List Tree, tokensOfTrees (bareTrees ts) = (tokensOfTrees ts).map Token.bare
  | [] => rfl
  | t :: ts => by
    rw [bareTrees, tokensOfTrees, tokensOfTrees, tokens_bare t, tokens_bareTrees ts,
      List.map_append]
end

theorem tokensOfTrees_map_bare (ts : List Tree) :
    tokensOfTrees (ts.map Tree.bare) = (tokensOfTrees ts).map Token.bare := by
  rw [← bareTrees_eq_map, tokens_bareTrees]

theorem isSymbol_bare (t : Token) (symbol : String) :
    t.bare.isSymbol symbol = t.isSymbol symbol := by
  obtain ⟨gap, kind, text⟩ := t
  cases kind <;> rfl

theorem isWord_bare (t : Token) (word : String) : t.bare.isWord word = t.isWord word := by
  obtain ⟨gap, kind, text⟩ := t
  cases kind <;> rfl

theorem opens?_bare (t : Token) : t.bare.opens? = t.opens? := by
  obtain ⟨gap, kind, text⟩ := t
  cases kind <;> rfl

theorem closes?_bare (t : Token) : t.bare.closes? = t.closes? := by
  obtain ⟨gap, kind, text⟩ := t
  cases kind <;> rfl

theorem bare_respelled (k : Carry) (t : Token) : (t.respelled k).bare = t.bare := by
  obtain ⟨gap, kind, text⟩ := t
  cases kind <;> rfl

theorem map_bare_respell (k : Carry) (ts : List Token) :
    (respell k ts).map Token.bare = ts.map Token.bare := by
  induction ts generalizing k with
  | nil => rfl
  | cons t ts ih => rw [respell, List.map_cons, List.map_cons, bare_respelled, ih]

/-! ### Reading -/

def OpenGroup.bare (g : OpenGroup) : OpenGroup :=
  ⟨g.delimiter, g.opening.bare, g.elders.map Tree.bare⟩

def Nesting.bare (n : Nesting) : Nesting := ⟨n.groups.map OpenGroup.bare, n.trees.map Tree.bare⟩

theorem push_bare (n : Nesting) (t : Token) :
    n.bare.push (.leaf t.bare) = (n.push (.leaf t)).bare := by
  have leaf : Tree.leaf t.bare = (Tree.leaf t).bare := by rw [Tree.bare]
  rw [leaf]
  rfl

theorem map_takenBack (g : OpenGroup) (trees : List Tree) :
    (trees ++ Tree.leaf g.opening :: g.elders).map Tree.bare =
      trees.map Tree.bare ++ Tree.leaf g.bare.opening :: g.bare.elders := by
  rw [List.map_append, List.map_cons, Tree.bare]
  rfl

theorem takeBackAngles_bare (gs : List OpenGroup) (trees : List Tree) :
    takeBackAngles (gs.map OpenGroup.bare) (trees.map Tree.bare) =
      (takeBackAngles gs trees).bare := by
  induction gs generalizing trees with
  | nil => rfl
  | cons g gs ih =>
    rw [List.map_cons, takeBackAngles, takeBackAngles, ← map_takenBack, ih]
    change (if g.delimiter = .angle then _ else _) = _
    split <;> rfl

theorem closeInnermost_bare (n : Nesting) (d : Delimiter) (t : Token) :
    n.bare.closeInnermost d t.bare = (n.closeInnermost d t).bare := by
  obtain ⟨groups, trees⟩ := n
  cases groups with
  | nil => exact push_bare ⟨[], trees⟩ t
  | cons g gs =>
    have group : (Tree.group d g.opening trees.reverse t).bare =
        .group d g.opening.bare (trees.map Tree.bare).reverse t.bare := by
      rw [Tree.bare, bareTrees_eq_map, List.map_reverse]
    change (if g.delimiter = d then _ else _) = Nesting.bare (if g.delimiter = d then _ else _)
    split
    · exact congrArg (fun closed => Nesting.mk _ (closed :: g.bare.elders)) group.symm
    · exact push_bare ⟨g :: gs, trees⟩ t

theorem read_bare (n : Nesting) (t : Token) : n.bare.read t.bare = (n.read t).bare := by
  have back : takeBackAngles n.bare.groups n.bare.trees = (takeBackAngles n.groups n.trees).bare :=
    takeBackAngles_bare n.groups n.trees
  rw [Nesting.read, Nesting.read, opens?_bare, closes?_bare, isSymbol_bare]
  split
  · rfl
  · split
    · exact closeInnermost_bare n .angle t
    · rw [back]
      exact closeInnermost_bare _ _ t
    · split
      · rw [back]
        exact push_bare _ t
      · exact push_bare n t

theorem foldl_read_bare (n : Nesting) (ts : List Token) :
    (ts.map Token.bare).foldl Nesting.read n.bare = (ts.foldl Nesting.read n).bare := by
  induction ts generalizing n with
  | nil => rfl
  | cons t ts ih => rw [List.map_cons, List.foldl_cons, List.foldl_cons, read_bare, ih]

theorem takeBackAll_bare (gs : List OpenGroup) (trees : List Tree) :
    takeBackAll (gs.map OpenGroup.bare) (trees.map Tree.bare) =
      (takeBackAll gs trees).map Tree.bare := by
  induction gs generalizing trees with
  | nil => rfl
  | cons g gs ih => rw [List.map_cons, takeBackAll, takeBackAll, ← map_takenBack, ih]

theorem treesOfTokens_map_bare (ts : List Token) :
    treesOfTokens (ts.map Token.bare) = (treesOfTokens ts).map Tree.bare := by
  have whole : (ts.map Token.bare).foldl Nesting.read ⟨[], []⟩ =
      (ts.foldl Nesting.read ⟨[], []⟩).bare := foldl_read_bare ⟨[], []⟩ ts
  rw [treesOfTokens, treesOfTokens, whole, List.map_reverse, ← takeBackAll_bare]
  rfl

/-- The trees of respelled tokens are nested as those of the tokens. -/
theorem map_bare_treesOfTokens_respell (k : Carry) (ts : List Token) :
    (treesOfTokens (respell k ts)).map Tree.bare = (treesOfTokens ts).map Tree.bare := by
  rw [← treesOfTokens_map_bare, map_bare_respell, treesOfTokens_map_bare]

end AnchorHarness.Rust
