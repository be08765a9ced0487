import AnchorHarness.Rust.Item

/-!
# Reading items

A sibling list is read from token trees, one item at a time. An item ends with its block in braces
or with a semicolon; which of the two, its first word decides. The items inside a block are read
before the block is looked at from outside, so nesting is by structural recursion on the trees.
-/

namespace AnchorHarness.Rust

/-! ### Where an item ends -/

/-- The trees after a visibility such as `pub` or `pub(crate)`. -/
def afterVisibility (ts : List Tree) : List Tree :=
  match ts with
  | t :: rest =>
    if t.isWord "pub" then
      match rest with
      | g :: others => if g.isGroup .paren then others else rest
      | [] => rest
    else if t.isWord "crate" && (rest.head?.map (Tree.isKind .word)).getD false then rest
    else ts
  | [] => ts

/-- The words that may stand before `fn`. -/
def functionQualifiers : List String :=
  ["const", "async", "unsafe", "extern", "default", "safe", "gen", "fn"]

/-- How an item ends. -/
inductive Ending where
  /-- With a semicolon, whatever blocks stand before it. -/
  | semicolon
  /-- With its first block in braces, or with a semicolon before any. -/
  | block
  /-- With the first group, which holds the arguments of a macro. -/
  | arguments
  deriving DecidableEq, Repr

/-- The trees begin with a path, as far as words and double colons alternate. -/
def afterPath (afterWord : Bool) (ts : List Tree) : List Tree :=
  match ts with
  | [] => []
  | t :: rest =>
    if afterWord then if t.isSymbol "::" then afterPath false rest else ts
    else if t.isKind .word then afterPath true rest else ts

def beginsMacro (ts : List Tree) : Bool :=
  match afterPath ((ts.head?.map (Tree.isSymbol "::")).getD false) ts with
  | t :: next :: _ =>
    t.isSymbol "!" && (next.isGroup .paren || next.isGroup .bracket || next.isGroup .brace ||
      (ts.head?.map (Tree.isWord "macro_rules")).getD false)
  | _ => false

def endingOf (ts : List Tree) : Ending :=
  let ts := afterVisibility (withoutComments ts)
  if beginsMacro ts then .arguments
  else match ts with
    | t :: next =>
      if ["use", "type", "static", "let"].any t.isWord then .semicolon
      else if t.isWord "const" then
        match next with
        | u :: _ =>
          if u.isGroup .brace || functionQualifiers.any u.isWord then .block else .semicolon
        | [] => .semicolon
      else if t.isWord "extern" && (next.head?.map (Tree.isWord "crate")).getD false then .semicolon
      else .block
    | [] => .block

/-- The tree is the last one of an item that ends in the given way. -/
def Ending.isLast (e : Ending) (t : Tree) : Bool :=
  match e with
  | .semicolon => t.isSymbol ";"
  | .block => t.isSymbol ";" || t.isGroup .brace
  | .arguments => t.isGroup .paren || t.isGroup .bracket || t.isGroup .brace

/-- The number of trees in front up to and including the first that is last. -/
def lengthThrough (isLast : Tree → Bool) (ts : List Tree) : Nat :=
  (ts.takeWhile fun t => !isLast t).length + 1

/-- The number of trees after the first one that belong to the same sibling. -/
def siblingLength (t : Tree) (ts : List Tree) : Nat :=
  if t.isComment then 0
  else if t.isSymbol "#" then lengthThrough (Tree.isGroup .bracket) ts
  else
    let ending := endingOf (t :: ts)
    if ending.isLast t then 0 else lengthThrough ending.isLast ts

/-! ### Fields and parameters -/

/-- The trees without the comments between the mark of an attribute and its brackets. -/
def withoutMarkComments : List Tree → List Tree
  | [] => []
  | t :: ts =>
    let rest := withoutMarkComments ts
    if t.isSymbol "#" then t :: rest.dropWhile Tree.isComment else t :: rest

/-- The trees after the attributes and comments in front. -/
def afterAttributes : List Tree → List Tree
  | [] => []
  | [t] => if t.isComment then [] else [t]
  | t :: u :: rest =>
    if t.isComment then afterAttributes (u :: rest)
    else if t.isSymbol "#" && u.isGroup .bracket then afterAttributes rest
    else t :: u :: rest

/-- What stands before and after the colon between a name or pattern and its type. -/
def atColon? (ts : List Tree) : Option (List Tree × List Tree) :=
  match ts.dropWhile fun t => !t.isSymbol ":" with
  | [] => none
  | _ :: type => some (ts.takeWhile fun t => !t.isSymbol ":", type)

/-- The text of trees, without the comments at both ends. -/
def trimmedText (ts : List Tree) : String := String.ofList (textOfTrees (trimComments ts))

/-- A pattern without the `mut` in front. -/
def afterMut (ts : List Tree) : List Tree :=
  match trimComments ts with
  | t :: rest => if t.isWord "mut" && !rest.isEmpty then rest else t :: rest
  | [] => []

/-- A parameter with a pattern and a type; none for a bare receiver or type or for `...`. -/
def parameter? (ts : List Tree) : Option Parameter :=
  match atColon? (afterAttributes ts) with
  | none => none
  | some (pattern, type) =>
    if (type.find? fun t => !t.isComment).any (Tree.isSymbol ".") then none
    else some ⟨trimmedText (afterMut pattern), TypeRef.ofTrees type⟩

def parametersOf (body : List Tree) : List Parameter :=
  (Text.cutAll (Tree.isSymbol ",") (withoutMarkComments body)).filterMap parameter?

def field? (ts : List Tree) : Option FieldDeclaration :=
  match atColon? ts with
  | none => none
  | some (before, type) =>
    some ⟨trimmedText (afterVisibility (withoutComments before)), TypeRef.ofTrees type⟩

/-- The text of an attribute: what stands between its brackets, without comments at the ends. -/
def attributeText (brackets : Tree) : String := trimmedText brackets.body

def membersOfPiece : List Tree → List (Sibling Member)
  | [] => []
  | t :: rest =>
    if t.isComment then .comment :: membersOfPiece rest
    else match t.isSymbol "#", rest with
      | true, u :: others =>
        if u.isGroup .bracket then .attribute (attributeText u) :: membersOfPiece others
        else ((field? (t :: rest)).map fun f => .node (.field f)).toList
      | _, _ => ((field? (t :: rest)).map fun f => .node (.field f)).toList

def membersOf (body : List Tree) : List (Sibling Member) :=
  [Sibling.node Member.separator].intercalate
    ((Text.cutAll (Tree.isSymbol ",") (withoutMarkComments body)).map membersOfPiece)

/-! ### Items -/

/-- A tree with the items that it holds if it is a block in braces. -/
abbrev WithItems := Tree × List (Sibling Item)

def nameInFront (ts : List WithItems) : String :=
  match ts with
  | (t, _) :: _ => trimmedText [t]
  | [] => ""

/-- A function, after its `fn`; one without a body is no node of interest. -/
def functionOf (ts : List WithItems) : Item :=
  match ts.getLast?, ts.find? fun (t, _) => t.isGroup .paren with
  | some (block, _), some (list, _) =>
    if block.isGroup .brace then .function (nameInFront ts) (parametersOf list.body) else .other
  | _, _ => .other

/-- An item, from its trees without comments and visibility. -/
def itemOf (ts : List WithItems) : Item :=
  match ts with
  | [] => .other
  | (t, _) :: rest =>
    if t.isWord "mod" then
      match rest with
      | [_, (block, items)] =>
        if block.isGroup .brace then .module (nameInFront rest) items
        else .moduleDeclaration (nameInFront rest)
      | _ => .moduleDeclaration (nameInFront rest)
    else if t.isWord "struct" then
      match rest.getLast? with
      | some (block, _) =>
        .struct (nameInFront rest)
          (if block.isGroup .brace then .named (membersOf block.body) else .unnamed)
      | none => .other
    else
      match ts.dropWhile fun (u, _) =>
        u.isKind .text || u.isKind .rawText ||
          (functionQualifiers.any (u.isWord ·) && !u.isWord "fn") with
      | (u, _) :: signature => if u.isWord "fn" then functionOf signature else .other
      | [] => .other

/-- The annotated trees after a visibility. -/
def afterVisibilityAnnotated (ts : List WithItems) : List WithItems :=
  ts.drop (ts.length - (afterVisibility (ts.map (·.1))).length)

/-- One sibling, from its trees. -/
def siblingOf (ts : List WithItems) : Sibling Item :=
  match ts with
  | [] => .node .other
  | (t, _) :: rest =>
    if t.isComment then .comment
    else if t.isSymbol "#" then
      match rest.filter fun (u, _) => !u.isComment with
      | [(brackets, _)] =>
        if brackets.isGroup .bracket then .attribute (attributeText brackets) else .node .other
      | _ => .node .other
    else .node (itemOf (afterVisibilityAnnotated (ts.filter fun (u, _) => !u.isComment)))

def siblingsOf : List WithItems → List (Sibling Item)
  | [] => []
  | t :: ts =>
    let n := siblingLength t.1 (ts.map (·.1))
    siblingOf (t :: ts.take n) :: siblingsOf (ts.drop n)
termination_by ts => ts.length
decreasing_by
  simp only [List.length_drop, List.length_cons]
  omega

mutual
/-- The items that a tree holds: none unless it is a block in braces. -/
def Tree.items : Tree → List (Sibling Item)
  | .leaf _ => []
  | .group .brace _ body _ => siblingsOf (withItems body)
  | .group .. => []

def withItems : List Tree → List WithItems
  | [] => []
  | t :: ts => (t, t.items) :: withItems ts
end

def itemsOfTrees (ts : List Tree) : List (Sibling Item) := siblingsOf (withItems ts)

end AnchorHarness.Rust
