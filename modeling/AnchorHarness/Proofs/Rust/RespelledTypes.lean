import AnchorHarness.Proofs.Rust.Kinds
import AnchorHarness.Proofs.Slicewise

/-!
# Types of respelled trees

Respelled trees are read as the type that the trees are read as: with the same text, kind and
arguments, and with the same path but for the spelling of comments inside a segment.
-/

namespace AnchorHarness.Rust

/-! ### Respelled trees -/

/-- The second list has the trees of the first one, and their tokens respelled. -/
structure Respelled (xs ys : List Tree) : Prop where
  bare : ys.map Tree.bare = xs.map Tree.bare
  tokens : ∃ k, tokensOfTrees ys = respell k (tokensOfTrees xs)
  sound : Sound (tokensOfTrees xs)

theorem length_respell (k : Carry) (ts : List Token) : (respell k ts).length = ts.length :=
  length_eq_of_map_eq (map_bare_respell k ts)

theorem length_tokens_of_bare {xs ys : List Tree} (h : ys.map Tree.bare = xs.map Tree.bare) :
    (tokensOfTrees ys).length = (tokensOfTrees xs).length := by
  have same : (tokensOfTrees ys).map Token.bare = (tokensOfTrees xs).map Token.bare := by
    rw [← tokensOfTrees_map_bare, h, tokensOfTrees_map_bare]
  exact length_eq_of_map_eq same

theorem Respelled.split {xs xs' ys : List Tree} (h : Respelled (xs ++ xs') ys) :
    ∃ zs zs', ys = zs ++ zs' ∧ Respelled xs zs ∧ Respelled xs' zs' := by
  obtain ⟨bare, ⟨k, tokens⟩, sound⟩ := h
  rw [List.map_append] at bare
  obtain ⟨zs, zs', rfl, front, behind⟩ := List.map_eq_append_iff.mp bare
  rw [tokensOfTrees_append, tokensOfTrees_append, respell_append] at tokens
  rw [tokensOfTrees_append] at sound
  have length := length_tokens_of_bare front
  obtain ⟨left, right⟩ := List.append_inj tokens (by rw [length, length_respell])
  exact ⟨zs, zs', rfl, ⟨front, ⟨k, left⟩, sound.left⟩, ⟨behind, ⟨_, right⟩, sound.right⟩⟩

theorem Respelled.length_eq {xs ys : List Tree} (h : Respelled xs ys) : ys.length = xs.length :=
  length_eq_of_map_eq h.bare

theorem Respelled.canonicalType_text {xs ys : List Tree} (h : Respelled xs ys) :
    canonicalType (textOfTrees ys) = canonicalType (textOfTrees xs) := by
  obtain ⟨k, tokens⟩ := h.tokens
  rw [textOfTrees, textOfTrees, tokens, canonicalType_sourceText_respell h.sound]

theorem Respelled.pathSegments_text {xs ys : List Tree} (h : Respelled xs ys) :
    pathSegments (textOfTrees ys) = (pathSegments (textOfTrees xs)).map respelledSegment := by
  obtain ⟨k, tokens⟩ := h.tokens
  rw [textOfTrees, textOfTrees, tokens, pathSegments_sourceText_respell h.sound]

theorem Respelled.agree {xs ys : List Tree} (h : Respelled xs ys) (test : Tree → Bool)
    (bare : ∀ t, test t.bare = test t) : xs.map test = ys.map test :=
  map_test_bare bare h.bare

theorem mem_tokensOfTrees {t : Token} {ts : List Tree} (h : .leaf t ∈ ts) :
    t ∈ tokensOfTrees ts := by
  obtain ⟨before, behind, rfl⟩ := List.append_of_mem h
  rw [tokensOfTrees_append, tokensOfTrees, Tree.tokens]
  simp

theorem isMarked_respelled {t : Token} (h : t.IsMarked) (k : Carry) : (t.respelled k).IsMarked := by
  intro content
  have content : t.kind.isPlain = false := content
  obtain ⟨m, hm, mark⟩ := h content
  have solid : Text.isBlank m = false := by
    simp only [isMark, Bool.or_eq_true, beq_iff_eq] at mark
    rcases mark with (rfl | rfl) | rfl <;> decide
  refine ⟨m, ?_, mark⟩
  show m ∈ t.spelled
  rw [Token.spelled, content]
  exact (mem_respace solid .tight t.text).mpr hm

theorem exists_of_mem_respell {u : Token} {k : Carry} {ts : List Token} (h : u ∈ respell k ts) :
    ∃ t ∈ ts, ∃ k', u = t.respelled k' := by
  induction ts generalizing k with
  | nil => cases h
  | cons t ts ih =>
    rcases List.mem_cons.mp h with rfl | h
    · exact ⟨t, List.mem_cons_self .., k, rfl⟩
    · obtain ⟨v, hv, k', he⟩ := ih h
      exact ⟨v, List.mem_cons_of_mem t hv, k', he⟩

theorem Respelled.kindOfType_eq {xs ys : List Tree} (h : Respelled xs ys) :
    kindOfType ys = kindOfType xs := by
  have marked (t : Token) (ht : t ∈ tokensOfTrees xs) : t.IsMarked := (h.sound.tokens t ht).marked
  have before : ∀ t, .leaf t ∈ xs → t.IsMarked := fun t ht => marked t (mem_tokensOfTrees ht)
  have behind : ∀ t, .leaf t ∈ ys → t.IsMarked := by
    intro u hu
    obtain ⟨k, tokens⟩ := h.tokens
    have hm := mem_tokensOfTrees hu
    rw [tokens] at hm
    obtain ⟨t, ht, k', rfl⟩ := exists_of_mem_respell hm
    exact isMarked_respelled (marked t ht) k'
  rw [← kindOfType_bare before, ← kindOfType_bare behind, h.bare]

theorem slicewise_respelled : Slicewise Respelled := by
  refine .of_split fun h => ?_
  obtain ⟨zs, zs', he, left, right⟩ := h.split
  exact ⟨zs, zs', he, left.length_eq, right.length_eq, left, right⟩

theorem Respelled.trimComments {xs ys : List Tree} (h : Respelled xs ys) :
    Respelled (trimComments xs) (trimComments ys) :=
  slicewise_respelled.trim h (h.agree Tree.isComment isComment_bareTree)

theorem Respelled.beforeLast {xs ys : List Tree} (h : Respelled xs ys) :
    Respelled (beforeLast xs) (beforeLast ys) := by
  have front := slicewise_respelled.take h (xs.length - 1)
  have length : xs.length - 1 = ys.length - 1 := by rw [h.length_eq]
  rw [← List.dropLast_eq_take, length, ← List.dropLast_eq_take] at front
  exact front.trimComments

/-! ### Respelled types -/

mutual
/-- A type whose paths, its own and those of its arguments, are in the canonical spelling. -/
def TypeRef.respelled : TypeRef → TypeRef
  | ⟨text, kind, path, args⟩ => ⟨text, kind, path.map respelledSegment, respelledTypes args⟩

def respelledTypes : List TypeRef → List TypeRef
  | [] => []
  | ty :: tys => ty.respelled :: respelledTypes tys
end

theorem respelledTypes_eq_map (tys : List TypeRef) :
    respelledTypes tys = tys.map TypeRef.respelled := by
  induction tys with
  | nil => rfl
  | cons ty tys ih => rw [respelledTypes, ih, List.map_cons]

theorem respelledTypes_append (xs ys : List TypeRef) :
    respelledTypes (xs ++ ys) = respelledTypes xs ++ respelledTypes ys := by
  simp only [respelledTypes_eq_map, List.map_append]

theorem Respelled.typeOfTrees_eq {xs ys : List Tree} (h : Respelled xs ys)
    (arguments : List TypeRef) :
    typeOfTrees ys (respelledTypes arguments) = (typeOfTrees xs arguments).respelled := by
  have kind := h.kindOfType_eq
  have text := h.canonicalType_text
  have path := h.pathSegments_text
  have front := h.beforeLast.pathSegments_text
  unfold typeOfTrees
  dsimp only
  rw [TypeRef.respelled, kind, text, path, front]
  cases kindOfType xs <;> rfl

theorem Respelled.atomOfTrees_eq {xs ys : List Tree} (h : Respelled xs ys) (kind : TypeKind) :
    atomOfTrees kind ys = (atomOfTrees kind xs).respelled := by
  rw [atomOfTrees, atomOfTrees, TypeRef.respelled, h.canonicalType_text]
  rfl

/-! ### Trees with arguments -/

structure Retyped (as bs : List WithArguments) : Prop where
  trees : Respelled (as.map (·.1)) (bs.map (·.1))
  arguments : bs.map (·.2) = as.map fun a => respelledTypes a.2

theorem Retyped.length_eq {as bs : List WithArguments} (h : Retyped as bs) :
    bs.length = as.length :=
  length_eq_of_map_eq h.arguments

theorem Retyped.isEmpty_eq {as bs : List WithArguments} (h : Retyped as bs) :
    bs.isEmpty = as.isEmpty := by
  have length := h.length_eq
  cases as with
  | nil => rw [List.eq_nil_of_length_eq_zero length]
  | cons a as =>
    cases bs with
    | nil => cases length
    | cons b bs => rfl

theorem slicewise_retyped : Slicewise Retyped := by
  refine .of_split fun {xs ys bs} h => ?_
  obtain ⟨trees, arguments⟩ := h
  rw [List.map_append] at trees arguments
  obtain ⟨zs, zs', he, left, right⟩ := trees.split
  obtain ⟨cs, cs', rfl, rfl, rfl⟩ := List.map_eq_append_iff.mp he
  have front : cs.length = xs.length := by simpa using left.length_eq
  have behind : cs'.length = ys.length := by simpa using right.length_eq
  rw [List.map_append] at arguments
  obtain ⟨before, rest⟩ := List.append_inj arguments (by simpa using front)
  exact ⟨cs, cs', rfl, front, behind, ⟨left, before⟩, ⟨right, rest⟩⟩

section

variable {as bs : List WithArguments}

theorem Retyped.agree (h : Retyped as bs) (test : Tree → Bool)
    (bare : ∀ t, test t.bare = test t) :
    (as.map fun a => test a.1) = bs.map fun b => test b.1 := by
  have same := h.trees.agree test bare
  rwa [List.map_map, List.map_map] at same

theorem Retyped.trimAnnotated (h : Retyped as bs) :
    Retyped (trimAnnotated as) (trimAnnotated bs) :=
  slicewise_retyped.trim h (h.agree Tree.isComment isComment_bareTree)

theorem Retyped.typeOfAnnotated_eq (h : Retyped as bs) :
    typeOfAnnotated bs = (typeOfAnnotated as).respelled := by
  obtain ⟨trees, arguments⟩ := h.trimAnnotated
  have last : ((Rust.trimAnnotated bs).getLast?.map (·.2)).getD [] =
      respelledTypes (((Rust.trimAnnotated as).getLast?.map (·.2)).getD []) := by
    have same := congrArg (fun tys => tys.getLast?.getD []) arguments
    rw [List.getLast?_map, List.getLast?_map] at same
    rw [same]
    cases (Rust.trimAnnotated as).getLast? <;> rfl
  rw [typeOfAnnotated, typeOfAnnotated, last]
  exact trees.typeOfTrees_eq _

/-- The kind of a literal that stands alone. -/
def literalKind? : List Tree → Option TypeKind
  | [.leaf t] => kindOfLiteral? t
  | _ => none

theorem literalKind?_bare (ts : List Tree) : literalKind? (ts.map Tree.bare) = literalKind? ts := by
  match ts with
  | [] => rfl
  | [.leaf t] =>
    rw [List.map_singleton, Tree.bare]
    exact kindOfLiteral?_bare t
  | [.group d o b c] =>
    rw [List.map_singleton, Tree.bare]
    rfl
  | x :: y :: ts => cases x <;> rfl

theorem simpleArgument_eq (ts : List WithArguments) :
    simpleArgument ts =
      if ts.any (·.1.isSymbol "=") then atomOfTrees .typeBinding (ts.map (·.1))
      else match literalKind? (ts.map (·.1)) with
        | some kind => atomOfTrees kind (ts.map (·.1))
        | none => typeOfAnnotated ts := by
  unfold simpleArgument
  congr 1
  match ts with
  | [] => rfl
  | [(.leaf t, _)] => rfl
  | [(.group d o b c, _)] => rfl
  | (x, _) :: y :: ts => cases x <;> rfl

theorem Retyped.simpleArgument_eq (h : Retyped as bs) :
    simpleArgument bs = (simpleArgument as).respelled := by
  have binding : bs.any (·.1.isSymbol "=") = as.any (·.1.isSymbol "=") := by
    have agree := h.agree (Tree.isSymbol "=") fun t => isSymbol_bareTree t "="
    have same := congrArg (List.any · id) agree
    simpa only [List.any_map, Function.comp_def, id] using same.symm
  have literal : literalKind? (bs.map (·.1)) = literalKind? (as.map (·.1)) := by
    rw [← literalKind?_bare, h.trees.bare, literalKind?_bare]
  rw [Rust.simpleArgument_eq, Rust.simpleArgument_eq, binding, literal]
  split
  · exact h.trees.atomOfTrees_eq _
  · split
    · exact h.trees.atomOfTrees_eq _
    · exact h.typeOfAnnotated_eq

theorem Retyped.entriesOfArgument_eq (h : Retyped as bs) :
    entriesOfArgument bs = respelledTypes (entriesOfArgument as) := by
  have trimmed := h.trimAnnotated
  unfold entriesOfArgument
  dsimp only
  generalize Rust.trimAnnotated as = as' at trimmed
  generalize Rust.trimAnnotated bs = bs' at trimmed
  have colon := trimmed.agree (fun t => !t.isSymbol ":")
    fun t => congrArg (! ·) (isSymbol_bareTree t ":")
  have bounded := slicewise_retyped.takeWhile trimmed colon
  have bounds := slicewise_retyped.dropWhile trimmed colon
  rw [trimmed.isEmpty_eq, bounds.isEmpty_eq]
  split
  · rfl
  · split
    · rw [trimmed.simpleArgument_eq]
      rfl
    · rw [bounded.trimAnnotated.simpleArgument_eq, bounds.trees.atomOfTrees_eq]
      rfl

theorem Retyped.entriesOfArguments_eq (h : Retyped as bs) :
    entriesOfArguments bs = respelledTypes (entriesOfArguments as) := by
  have agree := h.agree (Tree.isSymbol ",") fun t => isSymbol_bareTree t ","
  have pieces := slicewise_retyped.cutAll h agree
  rw [entriesOfArguments, entriesOfArguments]
  generalize Text.cutAll (·.1.isSymbol ",") as = xs at pieces
  generalize Text.cutAll (·.1.isSymbol ",") bs = ys at pieces
  induction pieces with
  | nil => rfl
  | cons piece pieces ih =>
    rw [List.flatMap_cons, List.flatMap_cons, piece.entriesOfArgument_eq, ih, respelledTypes_append]

end

/-! ### Arguments of nested trees -/

theorem map_fst_withTypeArguments (ts : List Tree) : (withTypeArguments ts).map (·.1) = ts := by
  induction ts with
  | nil => rfl
  | cons t ts ih => rw [withTypeArguments, List.map_cons, ih]

/-- A group is respelled with its body. -/
theorem Respelled.exists_group {d : Delimiter} {o c : Token} {b : List Tree} {y : Tree}
    (h : Respelled [.group d o b c] [y]) :
    ∃ o' b' c', y = .group d o' b' c' ∧ Respelled b b' := by
  obtain ⟨bare, ⟨k, tokens⟩, sound⟩ := h
  have same := (List.cons.inj bare).1
  cases y with
  | leaf t =>
    rw [Tree.bare, Tree.bare] at same
    cases same
  | group d' o' b' c' =>
    rw [Tree.bare, Tree.bare] at same
    injection same with delimiter opening body closing
    subst delimiter
    refine ⟨o', b', c', rfl, ?_⟩
    rw [bareTrees_eq_map, bareTrees_eq_map] at body
    simp only [tokensOfTrees, Tree.tokens, List.append_nil] at tokens sound
    rw [respell, respell_append] at tokens
    have rest := (List.cons.inj tokens).2
    have length : (tokensOfTrees b').length = (respell o.carry (tokensOfTrees b)).length := by
      rw [length_respell, length_tokens_of_bare body]
    have inner : Sound (o :: (tokensOfTrees b ++ [c])) := sound
    exact ⟨body, ⟨_, (List.append_inj rest length).1⟩,
      (@Sound.right [o] (tokensOfTrees b ++ [c]) inner).left⟩

mutual
theorem typeArguments_eq : ∀ x y : Tree, Respelled [x] [y] →
    y.typeArguments = respelledTypes x.typeArguments
  | .leaf t, y, h => by
    have same := (List.cons.inj h.bare).1
    cases y with
    | leaf u => rfl
    | group d o b c =>
      rw [Tree.bare, Tree.bare] at same
      cases same
  | .group d o b c, y, h => by
    obtain ⟨o', b', c', rfl, body⟩ := h.exists_group
    cases d with
    | angle =>
      have retyped : Retyped (withTypeArguments b) (withTypeArguments b') := by
        refine ⟨?_, arguments_eq b b' body⟩
        rwa [map_fst_withTypeArguments, map_fst_withTypeArguments]
      rw [Tree.typeArguments, Tree.typeArguments]
      exact retyped.entriesOfArguments_eq
    | paren => rfl
    | bracket => rfl
    | brace => rfl

theorem arguments_eq : ∀ xs ys : List Tree, Respelled xs ys →
    (withTypeArguments ys).map (·.2) = (withTypeArguments xs).map fun a => respelledTypes a.2
  | [], ys, h => by
    rw [List.eq_nil_of_length_eq_zero h.length_eq]
    rfl
  | x :: xs, ys, h => by
    obtain ⟨zs, zs', rfl, front, behind⟩ := @Respelled.split [x] xs ys h
    obtain ⟨y, rfl⟩ := List.length_eq_one_iff.mp front.length_eq
    rw [List.singleton_append, withTypeArguments, withTypeArguments, List.map_cons, List.map_cons,
      typeArguments_eq x y front, arguments_eq xs zs' behind]
end

theorem Respelled.ofTrees_eq {xs ys : List Tree} (h : Respelled xs ys) :
    TypeRef.ofTrees ys = (TypeRef.ofTrees xs).respelled := by
  have retyped : Retyped (withTypeArguments xs) (withTypeArguments ys) := by
    refine ⟨?_, arguments_eq xs ys h⟩
    rwa [map_fst_withTypeArguments, map_fst_withTypeArguments]
  exact retyped.typeOfAnnotated_eq

end AnchorHarness.Rust
