import AnchorHarness.Proofs.Rust.RespelledTypes

/-!
# What the canonical text denotes

The canonical text of a type is read as the type that was written, wherever no line comment and no
other place that depends on its spacing stands in the way.
-/

namespace AnchorHarness.Rust

/-! ### The type a text begins with -/

theorem respelled_treesOfText {cs : List Char} (h : Respaceable cs) :
    Respelled (treesOfText cs) (treesOfText (canonicalType cs)) := by
  have tokens : tokenize (canonicalType cs) = respell ⟨[], .tight⟩ (tokenize cs) :=
    tokenize_respace h ⟨[], .tight⟩ (by simp)
  refine ⟨?_, ⟨⟨[], .tight⟩, ?_⟩, ?_⟩
  · rw [treesOfText, treesOfText, tokens, map_bare_treesOfTokens_respell]
  · rw [treesOfText, treesOfText, tokensOfTrees_treesOfTokens, tokensOfTrees_treesOfTokens, tokens]
  · rw [treesOfText, tokensOfTrees_treesOfTokens]
    exact sound_tokenize h

theorem Respelled.leadingType {xs ys : List Tree} (h : Respelled xs ys) :
    Respelled (leadingType xs) (leadingType ys) := by
  have same := h.agree (fun t => !(t.isSymbol ";" || t.isWord "where")) fun t => by
    rw [isSymbol_bareTree, isWord_bareTree]
  exact (slicewise_respelled.takeWhile h same).trimComments

theorem holdsNoType_bare (ts : List Tree) : holdsNoType (ts.map Tree.bare) = holdsNoType ts := by
  match ts with
  | [] => rfl
  | [t] => exact isKind_bareTree t .lifetime
  | _ :: _ :: _ => rfl

theorem Respelled.holdsNoType_eq {xs ys : List Tree} (h : Respelled xs ys) :
    holdsNoType ys = holdsNoType xs := by
  rw [← holdsNoType_bare, h.bare, holdsNoType_bare]

/-! ### Types with plain paths -/

mutual
/-- No segment of a path holds a blank or a sign, as one with a comment or with arguments may. -/
def TypeRef.hasPlainPaths : TypeRef → Bool
  | ⟨_, _, path, args⟩ =>
    path.all (fun segment => segment.toList.all fun c => decide (IsInert c)) && allPlainPaths args

def allPlainPaths : List TypeRef → Bool
  | [] => true
  | ty :: tys => ty.hasPlainPaths && allPlainPaths tys
end

mutual
theorem respelled_of_plainPaths : ∀ ty : TypeRef, ty.hasPlainPaths = true → ty.respelled = ty
  | ⟨text, kind, path, args⟩, h => by
    rw [TypeRef.hasPlainPaths, Bool.and_eq_true] at h
    have segments : path.map respelledSegment = path := by
      refine List.map_congr_left (fun segment hs => ?_) |>.trans (List.map_id path)
      have plain := List.all_eq_true.mp h.1 segment hs
      exact respelledSegment_of_inert fun c hc => of_decide_eq_true (List.all_eq_true.mp plain c hc)
    rw [TypeRef.respelled, segments, respelledTypes_of_plainPaths args h.2]

theorem respelledTypes_of_plainPaths :
    ∀ tys : List TypeRef, allPlainPaths tys = true → respelledTypes tys = tys
  | [], _ => rfl
  | ty :: tys, h => by
    rw [allPlainPaths, Bool.and_eq_true] at h
    rw [respelledTypes, respelled_of_plainPaths ty h.1, respelledTypes_of_plainPaths tys h.2]
end

/-! ### Reading the canonical text -/

/-- The canonical text of a respaceable type is read as the type itself, with its segments in their
canonical spelling. -/
theorem TypeRef.parse_normalizeType {s : String} (h : Respaceable s.toList) :
    TypeRef.parse (normalizeType s) = (TypeRef.parse s).respelled ∧
      ((TypeRef.parse s).hasPlainPaths = true →
        TypeRef.parse (normalizeType s) = TypeRef.parse s) := by
  have text : (normalizeType s).toList = canonicalType s.toList := String.toList_ofList
  have leading := (respelled_treesOfText h).leadingType
  have twice : normalizeType (normalizeType s) = normalizeType s := by
    rw [normalizeType, text, canonicalType_canonicalType h.colons]
    rfl
  have read : TypeRef.parse (normalizeType s) = (TypeRef.parse s).respelled := by
    unfold TypeRef.parse
    rw [text]
    dsimp only
    rw [leading.holdsNoType_eq, twice]
    split
    · rfl
    · exact leading.ofTrees_eq
  refine ⟨read, fun plain => ?_⟩
  rw [read, respelled_of_plainPaths _ plain]

-- A line comment takes in what stands behind it: the path that was written ends in `C`.
example : (TypeRef.parse (normalizeType "a//b\n::C")).path = ["a"] := by
  have text : normalizeType "a//b\n::C" = "a//b::C" := by decide
  have trees : treesOfText "a//b::C".toList =
      [.leaf ⟨[], .word, ['a']⟩, .leaf ⟨[], .comment, "//b::C".toList⟩] := by cbv
  rw [text]
  unfold TypeRef.parse
  rw [trees]
  rfl

def ledgerText : String := "Account < 'info ,\n    state :: Book /* the  ledger */ >"

theorem tokenize_ledgerText : tokenize ledgerText.toList =
    [⟨[], .word, "Account".toList⟩, ⟨[' '], .symbol, ['<']⟩, ⟨[' '], .lifetime, "'info".toList⟩,
      ⟨[' '], .symbol, [',']⟩, ⟨"\n    ".toList, .word, "state".toList⟩,
      ⟨[' '], .symbol, "::".toList⟩, ⟨[' '], .word, "Book".toList⟩,
      ⟨[' '], .comment, "/* the  ledger */".toList⟩, ⟨[' '], .symbol, ['>']⟩] := by cbv

theorem respaceable_ledgerText : Respaceable ledgerText.toList := by
  refine ⟨?_, ?_, ?_, ?_, by cbv⟩
  all_goals
    rw [tokenize_ledgerText]
    decide

def ledgerType : TypeRef :=
  ⟨"Account<'info, state::Book /* the ledger */>", .genericType, ["Account"],
    [⟨"'info", .lifetime, [], []⟩, ⟨"state::Book", .scopedTypeIdentifier, ["state", "Book"], []⟩]⟩

theorem parse_ledgerText : TypeRef.parse ledgerText = ledgerType := by
  have trees : treesOfText ledgerText.toList =
      [.leaf ⟨[], .word, "Account".toList⟩,
        .group .angle ⟨[' '], .symbol, ['<']⟩
          [.leaf ⟨[' '], .lifetime, "'info".toList⟩, .leaf ⟨[' '], .symbol, [',']⟩,
            .leaf ⟨"\n    ".toList, .word, "state".toList⟩, .leaf ⟨[' '], .symbol, "::".toList⟩,
            .leaf ⟨[' '], .word, "Book".toList⟩,
            .leaf ⟨[' '], .comment, "/* the  ledger */".toList⟩]
          ⟨[' '], .symbol, ['>']⟩] := by
    rw [treesOfText, tokenize_ledgerText]
    cbv
  unfold TypeRef.parse
  rw [trees]
  rfl

theorem TypeRef.parse_normalizeType_ledgerText :
    Respaceable ledgerText.toList ∧
      TypeRef.parse (normalizeType ledgerText) = ledgerType := by
  have plain : (TypeRef.parse ledgerText).hasPlainPaths = true := by
    rw [parse_ledgerText]
    decide
  obtain ⟨-, same⟩ := TypeRef.parse_normalizeType respaceable_ledgerText
  exact ⟨respaceable_ledgerText, (same plain).trans parse_ledgerText⟩

end AnchorHarness.Rust
