import AnchorHarness.Proofs.Rust.Bare
import AnchorHarness.Rust.TypeRef

/-!
# Kinds without spacing

The kind of a type is read off the words and symbols of its trees. Of a token with another text it
matters only that the text names no primitive type, and a quote or a slash in it tells so much.
-/

namespace AnchorHarness.Rust

/-! ### Tests of one tree -/

theorem isSymbol_bareTree (t : Tree) (symbol : String) :
    t.bare.isSymbol symbol = t.isSymbol symbol := by
  cases t with
  | leaf t =>
    rw [Tree.bare]
    exact isSymbol_bare t symbol
  | group d o b c =>
    rw [Tree.bare]
    rfl

theorem isWord_bareTree (t : Tree) (word : String) : t.bare.isWord word = t.isWord word := by
  cases t with
  | leaf t =>
    rw [Tree.bare]
    exact isWord_bare t word
  | group d o b c =>
    rw [Tree.bare]
    rfl

theorem isKind_bareTree (t : Tree) (kind : TokenKind) : t.bare.isKind kind = t.isKind kind := by
  cases t with
  | leaf t =>
    rw [Tree.bare]
    rfl
  | group d o b c =>
    rw [Tree.bare]
    rfl

theorem isComment_bareTree (t : Tree) : t.bare.isComment = t.isComment := isKind_bareTree t .comment

theorem isGroup_bareTree (t : Tree) (d : Delimiter) : t.bare.isGroup d = t.isGroup d := by
  cases t with
  | leaf t =>
    rw [Tree.bare]
    rfl
  | group d o b c =>
    rw [Tree.bare]
    rfl

theorem kindOfLiteral?_bare (t : Token) : kindOfLiteral? t.bare = kindOfLiteral? t := by
  obtain ⟨gap, kind, text⟩ := t
  cases kind <;> rfl

theorem map_test_bare {test : Tree → Bool} (h : ∀ t, test t.bare = test t) {xs ys : List Tree}
    (same : ys.map Tree.bare = xs.map Tree.bare) : xs.map test = ys.map test := by
  have bare (ts : List Tree) : (ts.map Tree.bare).map test = ts.map test := by
    rw [List.map_map]
    exact List.map_congr_left fun t _ => h t
  rw [← bare xs, ← same, bare ys]

/-! ### Kinds -/

theorem not_primitive_of_mark {text : List Char} (h : ∃ m ∈ text, isMark m = true) :
    primitiveTypes.contains (String.ofList text) = false := by
  obtain ⟨m, hm, mark⟩ := h
  have names : (primitiveTypes.all fun name => name.toList.all (! isMark ·)) = true := by decide
  rw [List.contains_eq_mem, decide_eq_false_iff_not]
  intro hn
  have other := List.all_eq_true.mp (List.all_eq_true.mp names _ hn) m
    (by rwa [String.toList_ofList])
  rw [mark] at other
  cases other

theorem isPrimitive_bare {t : Token} (h : t.IsMarked) :
    primitiveTypes.contains (String.ofList t.bare.text) =
      primitiveTypes.contains (String.ofList t.text) := by
  cases plain : t.kind.isPlain with
  | true => rw [Token.bare, plain, if_pos rfl]
  | false =>
    have empty : t.bare.text = [] := by rw [Token.bare, plain, if_neg (by decide)]
    rw [not_primitive_of_mark (h plain), empty]
    decide

theorem any_map_bare {test : Tree → Bool} (h : ∀ t, test t.bare = test t) (ts : List Tree) :
    (ts.map Tree.bare).any test = ts.any test := by
  rw [List.any_map]
  exact congrArg (ts.any ·) (funext h)

theorem kindOfPath_bare {ts : List Tree} (h : ∀ t, .leaf t ∈ ts → t.IsMarked) :
    kindOfPath (ts.map Tree.bare) = kindOfPath ts := by
  have found : (ts.map Tree.bare).find? (fun t => t.isSymbol "!" || t.isGroup .paren) =
      (ts.find? fun t => t.isSymbol "!" || t.isGroup .paren).map Tree.bare := by
    rw [List.find?_map]
    congr 2
    funext t
    simp only [Function.comp_apply, isSymbol_bareTree, isGroup_bareTree]
  have last : ((ts.map Tree.bare).getLast?.map (Tree.isGroup .angle)).getD false =
      (ts.getLast?.map (Tree.isGroup .angle)).getD false := by
    rw [List.getLast?_map, Option.map_map]
    congr 2
    funext t
    exact isGroup_bareTree t .angle
  unfold kindOfPath
  rw [found, last]
  cases ts.find? fun t => t.isSymbol "!" || t.isGroup .paren with
  | some t =>
    cases t with
    | leaf t => simp only [Option.map_some, Tree.bare]
    | group d o b c => simp only [Option.map_some, Tree.bare]
  | none =>
    simp only [Option.map_none]
    congr 1
    match ts, h with
    | [], _ => rfl
    | [.leaf t], h =>
      have same := isPrimitive_bare (h t (List.mem_singleton.mpr rfl))
      simp only [List.map_cons, List.map_nil, Tree.bare, same]
    | [.group d o b c], _ => simp only [List.map_cons, List.map_nil, Tree.bare]
    | x :: y :: ts, _ => cases x <;> simp only [List.map_cons, Tree.bare]

theorem kindOfLeaf_bare {t : Token} {ts : List Tree} (h : ∀ t, .leaf t ∈ ts → t.IsMarked) :
    kindOfLeaf t.bare (ts.map Tree.bare) = kindOfLeaf t ts := by
  have colons : (ts.map Tree.bare).any (Tree.isSymbol "::") = ts.any (Tree.isSymbol "::") :=
    any_map_bare (fun t => isSymbol_bareTree t "::") ts
  have words : ["fn", "for", "unsafe", "extern"].any t.bare.isWord =
      ["fn", "for", "unsafe", "extern"].any t.isWord :=
    congrArg (List.any _) (funext (isWord_bare t))
  simp only [kindOfLeaf, isSymbol_bare, isWord_bare, kindOfPath_bare h, colons, words]

theorem withoutComments_bare (ts : List Tree) :
    withoutComments (ts.map Tree.bare) = (withoutComments ts).map Tree.bare := by
  rw [withoutComments, withoutComments, List.filter_map]
  congr 2
  funext t
  simp only [Function.comp_apply, isComment_bareTree]

theorem afterInnerSum_bare (ts : List Tree) :
    afterInnerSum (ts.map Tree.bare) = (afterInnerSum ts).map Tree.bare := by
  unfold afterInnerSum
  rw [withoutComments_bare]
  match withoutComments ts with
  | [] => rfl
  | [_] => rfl
  | [_, _] => rfl
  | t :: u :: plus :: rest =>
    simp only [List.map_cons, isWord_bareTree, isKind_bareTree, isSymbol_bareTree]
    split <;> rfl

/-- The kind of a type does not depend on spacing. -/
theorem kindOfType_bare {ts : List Tree} (h : ∀ t, .leaf t ∈ ts → t.IsMarked) :
    kindOfType (ts.map Tree.bare) = kindOfType ts := by
  have sum : (afterInnerSum (ts.map Tree.bare)).any (Tree.isSymbol "+") =
      (afterInnerSum ts).any (Tree.isSymbol "+") := by
    rw [afterInnerSum_bare]
    exact any_map_bare (fun t => isSymbol_bareTree t "+") _
  unfold kindOfType
  rw [sum]
  congr 1
  cases ts with
  | nil => rfl
  | cons t ts =>
    cases t with
    | leaf t =>
      have leaf := @kindOfLeaf_bare t (.leaf t :: ts) h
      rw [List.map_cons, Tree.bare] at leaf
      simp only [List.map_cons, Tree.bare, leaf]
    | group d o b c =>
      have path := kindOfPath_bare h
      have comments : (bareTrees b).all Tree.isComment = b.all Tree.isComment := by
        rw [bareTrees_eq_map, List.all_map]
        exact congrArg (b.all ·) (funext isComment_bareTree)
      rw [List.map_cons, Tree.bare] at path
      cases d with
      | paren => simp only [List.map_cons, Tree.bare, comments]
      | bracket => simp only [List.map_cons, Tree.bare]
      | brace => simp only [List.map_cons, Tree.bare]
      | angle => simp only [List.map_cons, Tree.bare, path]

end AnchorHarness.Rust
