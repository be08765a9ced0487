import AnchorHarness.Rust.Token

/-!
# Token trees

Tokens are grouped by their brackets. Angle brackets group too, since in types they always match; in
expressions they may be comparisons, so an angle bracket that is still open where another bracket
closes, or where a statement ends, is taken back and becomes a plain token. One pass over the tokens
keeps the groups that are open as a stack.
-/

namespace AnchorHarness.Rust

/-- The four kinds of bracket. -/
inductive Delimiter where
  | paren
  | bracket
  | brace
  | angle
  deriving DecidableEq, Repr

/-- A token or a bracketed group. -/
inductive Tree where
  | leaf (token : Token)
  | group (delimiter : Delimiter) (opening : Token) (body : List Tree) (closing : Token)

/-- The bracket that a token opens. -/
def Token.opens? (t : Token) : Option Delimiter :=
  if t.kind ≠ .symbol then none
  else match t.text with
    | ['('] => some .paren
    | ['['] => some .bracket
    | ['\x7b'] => some .brace
    | ['<'] => some .angle
    | _ => none

def Token.closes? (t : Token) : Option Delimiter :=
  if t.kind ≠ .symbol then none
  else match t.text with
    | [')'] => some .paren
    | [']'] => some .bracket
    | ['\x7d'] => some .brace
    | ['>'] => some .angle
    | _ => none

/-! ### Matching -/

/-- A group that has been opened, and its elder siblings, the youngest first. -/
structure OpenGroup where
  delimiter : Delimiter
  opening : Token
  elders : List Tree

/-- The open groups, the innermost first, and the trees read in the innermost, the youngest
first. -/
structure Nesting where
  groups : List OpenGroup
  trees : List Tree

def Nesting.push (n : Nesting) (t : Tree) : Nesting := { n with trees := t :: n.trees }

/-- Takes back the angle brackets that are open innermost. -/
def takeBackAngles : List OpenGroup → List Tree → Nesting
  | [], trees => ⟨[], trees⟩
  | g :: gs, trees =>
    if g.delimiter = .angle then takeBackAngles gs (trees ++ .leaf g.opening :: g.elders)
    else ⟨g :: gs, trees⟩

/-- Closes the innermost group if the token is its closing bracket; else the token is plain. -/
def Nesting.closeInnermost (n : Nesting) (d : Delimiter) (closing : Token) : Nesting :=
  match n.groups with
  | [] => n.push (.leaf closing)
  | g :: gs =>
    if g.delimiter = d then ⟨gs, .group d g.opening n.trees.reverse closing :: g.elders⟩
    else n.push (.leaf closing)

def Nesting.read (n : Nesting) (t : Token) : Nesting :=
  match t.opens? with
  | some d => ⟨⟨d, t, n.trees⟩ :: n.groups, []⟩
  | none =>
    match t.closes? with
    | some .angle => n.closeInnermost .angle t
    | some d => (takeBackAngles n.groups n.trees).closeInnermost d t
    | none =>
      if t.isSymbol ";" then (takeBackAngles n.groups n.trees).push (.leaf t)
      else n.push (.leaf t)

def takeBackAll : List OpenGroup → List Tree → List Tree
  | [], trees => trees
  | g :: gs, trees => takeBackAll gs (trees ++ .leaf g.opening :: g.elders)

def treesOfTokens (ts : List Token) : List Tree :=
  let n := ts.foldl Nesting.read ⟨[], []⟩
  (takeBackAll n.groups n.trees).reverse

def treesOfText (cs : List Char) : List Tree := treesOfTokens (tokenize cs)

/-! ### Tokens of trees -/

mutual
/-- The tokens of a tree, brackets included. -/
def Tree.tokens : Tree → List Token
  | .leaf t => [t]
  | .group _ opening body closing => opening :: (tokensOfTrees body ++ [closing])

/-- The tokens of trees, in order. -/
def tokensOfTrees : List Tree → List Token
  | [] => []
  | t :: ts => t.tokens ++ tokensOfTrees ts
end

/-- The source text of trees, from the first token to the last. -/
def textOfTrees (ts : List Tree) : List Char := sourceText (tokensOfTrees ts)

/-! ### Kinds of tree -/

def Tree.isWord (word : String) : Tree → Bool
  | .leaf t => t.isWord word
  | .group .. => false

def Tree.isSymbol (symbol : String) : Tree → Bool
  | .leaf t => t.isSymbol symbol
  | .group .. => false

def Tree.isKind (kind : TokenKind) : Tree → Bool
  | .leaf t => t.kind == kind
  | .group .. => false

def Tree.isComment : Tree → Bool := Tree.isKind .comment

/-- The trees without their comments. -/
def withoutComments (ts : List Tree) : List Tree := ts.filter fun t => !t.isComment

def Tree.isGroup (delimiter : Delimiter) : Tree → Bool
  | .leaf _ => false
  | .group d .. => d == delimiter

def Tree.body : Tree → List Tree
  | .leaf _ => []
  | .group _ _ body _ => body

/-- The trees without the comments at both ends. -/
def trimComments (ts : List Tree) : List Tree :=
  ((ts.dropWhile Tree.isComment).reverse.dropWhile Tree.isComment).reverse

end AnchorHarness.Rust
