import AnchorHarness.Proofs.Rust.SourceText
import AnchorHarness.Proofs.Rust.Nesting
import AnchorHarness.Rust.TypeRef

/-!
# Types in writing

A type that is a path, plain or with arguments, together with the blanks that were written in front
of each of its tokens. Its text is read as just its tokens, and these are nested as it is.
-/

namespace AnchorHarness.Rust

open Text (isBlank)

/-! ### Names -/

def keywords : List String :=
  ["as", "async", "await", "break", "const", "continue", "crate", "dyn", "else", "enum", "extern",
    "false", "fn", "for", "if", "impl", "in", "let", "loop", "match", "mod", "move", "mut", "pub",
    "ref", "return", "self", "Self", "static", "struct", "super", "trait", "true", "type", "unsafe",
    "use", "where", "while"]

structure IsName (cs : List Char) : Prop where
  starts : ∃ c front, cs = c :: front ∧ isDigit c = false
  letters : ∀ c ∈ cs, isNameCharacter c = true

/-- A name that is no keyword. -/
structure Identifier where
  name : String
  isName : IsName name.toList
  noKeyword : name ∉ keywords

/-- A lifetime, named with its quote. -/
structure LifetimeName where
  name : String
  isName : ∃ cs, name.toList = '\'' :: cs ∧ IsName cs

/-- Blanks as they may stand between two tokens. -/
structure Gap where
  blanks : List Char
  isBlank : AllBlank blanks

/-! ### Written types -/

/-- A further segment of a path, behind a double colon. -/
structure PathStep where
  beforeColons : Gap
  behindColons : Gap
  name : Identifier

/-- A path of one or more names; one alone names no primitive type. -/
structure WrittenPath where
  gap : Gap
  head : Identifier
  steps : List PathStep
  notPrimitive : steps = [] → head.name ∉ primitiveTypes

mutual
/-- A type, with the blanks in front of each token. -/
inductive WrittenType where
  | plain (path : WrittenPath)
  | generic (path : WrittenPath) (opening : Gap) (arguments : WrittenArguments) (closing : Gap)

inductive WrittenArgument where
  | lifetime (gap : Gap) (name : LifetimeName)
  | type (ty : WrittenType)

/-- One or more arguments; the gap between two is the one in front of the comma. -/
inductive WrittenArguments where
  | last (argument : WrittenArgument)
  | cons (argument : WrittenArgument) (comma : Gap) (others : WrittenArguments)
end

/-! ### Tokens -/

def Gap.sign (g : Gap) (sign : List Char) : Token := ⟨g.blanks, .symbol, sign⟩

def Gap.word (g : Gap) (n : Identifier) : Token := ⟨g.blanks, .word, n.name.toList⟩

def Gap.lifetime (g : Gap) (n : LifetimeName) : Token := ⟨g.blanks, .lifetime, n.name.toList⟩

def PathStep.tokens (s : PathStep) : List Token :=
  [s.beforeColons.sign [':', ':'], s.behindColons.word s.name]

def WrittenPath.tokens (p : WrittenPath) : List Token :=
  p.gap.word p.head :: p.steps.flatMap PathStep.tokens

mutual
def WrittenType.tokens : WrittenType → List Token
  | .plain p => p.tokens
  | .generic p o as c => p.tokens ++ o.sign ['<'] :: (as.tokens ++ [c.sign ['>']])

def WrittenArgument.tokens : WrittenArgument → List Token
  | .lifetime g n => [g.lifetime n]
  | .type ty => ty.tokens

def WrittenArguments.tokens : WrittenArguments → List Token
  | .last a => a.tokens
  | .cons a g as => a.tokens ++ g.sign [','] :: as.tokens
end

/-- The text of a type, with the blanks behind it. -/
def WrittenType.text (w : WrittenType) (behind : Gap) : String :=
  String.ofList (bodyText w.tokens ++ behind.blanks)

/-! ### Reading one token -/

theorem loose_blank {c : Char} (h : isBlank c = true) (cs : List Char) : Loose (c :: cs) := by
  apply loose_cons.mpr
  intro inert
  rw [inert.1] at h
  cases h

theorem loose_gap {g cs : List Char} (hg : AllBlank g) (h : Loose cs) : Loose (g ++ cs) := by
  cases g with
  | nil => exact h
  | cons c g => exact loose_blank (hg c (List.mem_cons_self ..)) (g ++ cs)

theorem isGap_of_allBlank {g : List Char} (h : AllBlank g) : ∀ c ∈ g, isGap c = true :=
  fun c hc => isGap_of_isBlank (h c hc)

theorem ne_of_isNameCharacter {c d : Char} (h : isNameCharacter c = true)
    (other : isNameCharacter d = false) : c ≠ d := by
  rintro rfl
  rw [other] at h
  cases h

/-- The text neither continues a name in front of it nor makes the name open a literal. -/
def EndsName (cs : List Char) : Prop :=
  ∀ c ∈ cs.head?, isNameCharacter c = false ∧ c ∉ ['#', '"', '\'']

theorem endsName_of_loose {cs : List Char} (h : Loose cs) : EndsName cs := by
  intro c hc
  have sign := h c hc
  refine ⟨Bool.eq_false_iff.mpr fun name => sign (isInert_of_isNameCharacter name), ?_⟩
  intro hm
  simp only [List.mem_cons, List.not_mem_nil, or_false] at hm
  rcases hm with rfl | rfl | rfl <;> exact sign (by decide)

section

variable {cs rest : List Char} (letters : ∀ c ∈ cs, isNameCharacter c = true)
  (ends : EndsName rest)
include letters ends

theorem nameLength_of_letters : nameLength (cs ++ rest) = cs.length := by
  rw [nameLength, List.takeWhile_append_of_pos letters]
  cases rest with
  | nil => rw [List.takeWhile_nil, List.append_nil]
  | cons c rest =>
    have stops : isNameCharacter c = false := (ends c rfl).1
    rw [List.takeWhile_cons_of_neg (by simp [stops]), List.append_nil]

theorem head?_of_letters : ∀ c ∈ (cs ++ rest).head?, c ∉ ['#', '"', '\''] := by
  cases cs with
  | nil => exact fun c hc => (ends c hc).2
  | cons d cs =>
    intro c hc hm
    obtain rfl : d = c := Option.some.inj hc
    have letter := letters d (List.mem_cons_self ..)
    simp only [List.mem_cons, List.not_mem_nil, or_false] at hm
    rcases hm with rfl | rfl | rfl <;> exact absurd letter (by decide)

theorem rawTextLength?_of_letters : rawTextLength? (cs ++ rest) = none := by
  obtain none | ⟨n, ds, text⟩ := rawTextLength?_cases (cs ++ rest)
  · exact none
  · have marks := head?_of_letters letters ends
    rw [text] at marks
    cases n with
    | zero => exact absurd (by simp) (marks '"' rfl)
    | succ n => exact absurd (by simp) (marks '#' rfl)

theorem opensNone_of_letters (c : Char) : OpensNone c (cs ++ rest) := by
  have marks := head?_of_letters letters ends
  refine ⟨fun _ hd => ?_, fun _ hd => ?_, fun _ ds hd => ?_, fun _ => ?_⟩
  · exact marks '\'' hd (by decide)
  · exact marks '"' hd (by decide)
  · cases cs with
    | nil =>
      rw [List.nil_append] at hd
      have stops : isNameCharacter 'r' = false := (ends 'r' (congrArg List.head? hd)).1
      exact absurd stops (by decide)
    | cons d cs =>
      obtain ⟨-, rfl⟩ := List.cons.inj hd
      exact rawTextLength?_of_letters (fun e he => letters e (List.mem_cons_of_mem d he)) ends
  · exact rawTextLength?_of_letters letters ends

end

theorem lexeme_of_name {c : Char} {front rest : List Char} (h : IsName (c :: front))
    (ends : EndsName rest) : lexeme c (front ++ rest) = (.word, front.length) := by
  have first : isNameCharacter c = true := h.letters c (List.mem_cons_self ..)
  have letters : ∀ d ∈ front, isNameCharacter d = true := fun d hd =>
    h.letters d (List.mem_cons_of_mem c hd)
  have digit : isDigit c = false := by
    obtain ⟨d, ds, he, digit⟩ := h.starts
    obtain ⟨rfl, rfl⟩ := List.cons.inj he
    exact digit
  have plain : c ∉ ['/', '"', '\'', ':', '-', '='] := by
    intro hm
    simp only [List.mem_cons, List.not_mem_nil, or_false] at hm
    rcases hm with rfl | rfl | rfl | rfl | rfl | rfl <;> exact absurd first (by decide)
  have mark : ¬(c = 'r' ∧ (front ++ rest).head? = some '#') := fun raw =>
    head?_of_letters letters ends '#' raw.2 (by decide)
  rw [lexeme_plain plain, digit, first, if_neg (by decide), if_pos rfl,
    afterLetter_word (opensNone_of_letters letters ends c), wordLength, if_neg mark,
    nameLength_of_letters letters ends]

theorem lexeme_of_lifetime {front rest : List Char} (h : IsName front) (ends : EndsName rest) :
    lexeme '\'' (front ++ rest) = (.lifetime, front.length) := by
  obtain ⟨c, cs, rfl, -⟩ := h.starts
  have first : isNameCharacter c = true := h.letters c (List.mem_cons_self ..)
  have letters : ∀ d ∈ cs, isNameCharacter d = true := fun d hd =>
    h.letters d (List.mem_cons_of_mem c hd)
  have unclosed : (cs ++ rest).head? ≠ some '\'' := fun hd =>
    head?_of_letters letters ends '\'' hd (by decide)
  have slash : c ≠ '\\' := ne_of_isNameCharacter first (by decide)
  change afterQuote (c :: (cs ++ rest)) = _
  rw [afterQuote_open slash unclosed, if_pos first, ← List.cons_append,
    nameLength_of_letters h.letters ends]

/-- A text is read token by token as long as each token is read off the text in front. -/
theorem tokenize_body {t : Token} {c : Char} {front rest : List Char} (hg : AllBlank t.gap)
    (text : t.text = c :: front) (hc : isGap c = false)
    (read : lexeme c (front ++ rest) = (t.kind, front.length)) :
    tokenize (t.gap ++ (t.text ++ rest)) = t :: tokenize rest := by
  rw [text, List.cons_append, tokenize_append (isGap_of_allBlank hg) hc, read, List.take_left,
    List.drop_left, ← text]

theorem not_isGap_of_isNameCharacter {c : Char} (h : isNameCharacter c = true) :
    isGap c = false := by
  cases hg : isGap c with
  | false => rfl
  | true =>
    by_cases blank : isBlank c = true
    · rw [not_isNameCharacter_of_isBlank blank] at h
      cases h
    · have mark : c.toNat = 0xFEFF := by simpa [isGap, blank] using hg
      have same : c = Char.ofNat 0xFEFF := by rw [← mark, Char.ofNat_toNat]
      subst same
      exact absurd h (by decide)

theorem tokenize_name {g name rest : List Char} (hg : AllBlank g) (isName : IsName name)
    (ends : EndsName rest) :
    tokenize (g ++ (name ++ rest)) = ⟨g, .word, name⟩ :: tokenize rest := by
  obtain ⟨c, front, rfl, -⟩ := isName.starts
  have solid : isGap c = false :=
    not_isGap_of_isNameCharacter (isName.letters c (List.mem_cons_self ..))
  exact tokenize_body (t := ⟨g, .word, c :: front⟩) hg rfl solid (lexeme_of_name isName ends)

theorem tokenize_word (g : Gap) (n : Identifier) {rest : List Char} (loose : Loose rest) :
    tokenize (g.blanks ++ (n.name.toList ++ rest)) = g.word n :: tokenize rest :=
  tokenize_name g.isBlank n.isName (endsName_of_loose loose)

theorem tokenize_lifetime (g : Gap) (n : LifetimeName) {rest : List Char} (loose : Loose rest) :
    tokenize (g.blanks ++ (n.name.toList ++ rest)) = g.lifetime n :: tokenize rest := by
  obtain ⟨cs, text, isName⟩ := n.isName
  exact tokenize_body (t := g.lifetime n) g.isBlank text (by decide)
    (lexeme_of_lifetime isName (endsName_of_loose loose))

/-- The signs between the names of a type. -/
inductive IsSign : List Char → Prop where
  | colons : IsSign [':', ':']
  | opening : IsSign ['<']
  | closing : IsSign ['>']
  | comma : IsSign [',']

theorem tokenize_sign (g : Gap) {sign : List Char} (h : IsSign sign) (rest : List Char) :
    tokenize (g.blanks ++ (sign ++ rest)) = g.sign sign :: tokenize rest := by
  cases h with
  | colons => exact tokenize_body (t := g.sign [':', ':']) g.isBlank rfl (by decide) rfl
  | opening => exact tokenize_body (t := g.sign ['<']) g.isBlank rfl (by decide) rfl
  | closing => exact tokenize_body (t := g.sign ['>']) g.isBlank rfl (by decide) rfl
  | comma => exact tokenize_body (t := g.sign [',']) g.isBlank rfl (by decide) rfl

theorem loose_sign (g : Gap) {sign : List Char} (h : IsSign sign) (rest : List Char) :
    Loose (g.blanks ++ (sign ++ rest)) := by
  apply loose_gap g.isBlank
  cases h <;> exact loose_cons.mpr (by decide)

/-! ### Reading a type -/

theorem bodyText_sign (g : Gap) (sign : List Char) (ts : List Token) (rest : List Char) :
    bodyText (g.sign sign :: ts) ++ rest = g.blanks ++ (sign ++ (bodyText ts ++ rest)) := by
  rw [bodyText_cons, List.append_assoc, List.append_assoc]
  rfl

theorem tokenize_steps (steps : List PathStep) {rest : List Char} (loose : Loose rest) :
    Loose (bodyText (steps.flatMap PathStep.tokens) ++ rest) ∧
      tokenize (bodyText (steps.flatMap PathStep.tokens) ++ rest) =
        steps.flatMap PathStep.tokens ++ tokenize rest := by
  induction steps with
  | nil => exact ⟨loose, rfl⟩
  | cons s steps ih =>
    obtain ⟨behind, read⟩ := ih
    have text : bodyText ((s :: steps).flatMap PathStep.tokens) ++ rest =
        s.beforeColons.blanks ++ ([':', ':'] ++ (s.behindColons.blanks ++ (s.name.name.toList ++
          (bodyText (steps.flatMap PathStep.tokens) ++ rest)))) := by
      rw [List.flatMap_cons, bodyText_append, List.append_assoc, PathStep.tokens, bodyText_sign,
        bodyText_cons, bodyText, List.flatMap_nil, List.append_nil, List.append_assoc]
      rfl
    rw [text]
    refine ⟨loose_sign _ .colons _, ?_⟩
    rw [tokenize_sign _ .colons, tokenize_word _ _ behind, read]
    rfl

theorem tokenize_path (p : WrittenPath) {rest : List Char} (loose : Loose rest) :
    tokenize (bodyText p.tokens ++ rest) = p.tokens ++ tokenize rest := by
  obtain ⟨behind, read⟩ := tokenize_steps p.steps loose
  have text : bodyText p.tokens ++ rest = p.gap.blanks ++ (p.head.name.toList ++
      (bodyText (p.steps.flatMap PathStep.tokens) ++ rest)) := by
    rw [WrittenPath.tokens, bodyText_cons, List.append_assoc, List.append_assoc]
    rfl
  rw [text, tokenize_word _ _ behind, read]
  rfl

mutual
theorem tokenize_type : ∀ (w : WrittenType) {rest : List Char}, Loose rest →
    tokenize (bodyText w.tokens ++ rest) = w.tokens ++ tokenize rest
  | .plain p, _, loose => tokenize_path p loose
  | .generic p o as c, rest, loose => by
    have behind := loose_sign o .opening (bodyText (as.tokens ++ [c.sign ['>']]) ++ rest)
    have closes := loose_sign c .closing (bodyText [] ++ rest)
    have inner := tokenize_arguments as closes
    rw [WrittenType.tokens, bodyText_append, List.append_assoc, bodyText_sign,
      tokenize_path p behind, tokenize_sign _ .opening, bodyText_append, List.append_assoc,
      bodyText_sign, inner, tokenize_sign _ .closing, List.append_assoc, List.cons_append,
      List.append_assoc]
    rfl

theorem tokenize_argument : ∀ (a : WrittenArgument) {rest : List Char}, Loose rest →
    tokenize (bodyText a.tokens ++ rest) = a.tokens ++ tokenize rest
  | .lifetime g n, rest, loose => by
    have text : bodyText [g.lifetime n] ++ rest = g.blanks ++ (n.name.toList ++ rest) := by
      rw [bodyText_cons, List.append_assoc, List.append_assoc]
      rfl
    rw [WrittenArgument.tokens, text, tokenize_lifetime g n loose]
    rfl
  | .type ty, _, loose => tokenize_type ty loose

theorem tokenize_arguments : ∀ (as : WrittenArguments) {rest : List Char}, Loose rest →
    tokenize (bodyText as.tokens ++ rest) = as.tokens ++ tokenize rest
  | .last a, _, loose => tokenize_argument a loose
  | .cons a g as, rest, loose => by
    have behind := loose_sign g .comma (bodyText as.tokens ++ rest)
    rw [WrittenArguments.tokens, bodyText_append, List.append_assoc, bodyText_sign,
      tokenize_argument a behind, tokenize_sign _ .comma, tokenize_arguments as loose,
      List.append_assoc]
    rfl
end

/-- The text of a type has just its tokens. -/
theorem tokenize_text (w : WrittenType) (behind : Gap) :
    tokenize (w.text behind).toList = w.tokens := by
  have loose : Loose behind.blanks := by
    have none := loose_gap behind.isBlank loose_nil
    rwa [List.append_nil] at none
  rw [WrittenType.text, String.toList_ofList, tokenize_type w loose,
    tokenize_gap (isGap_of_allBlank behind.isBlank), List.append_nil]

/-! ### Nesting -/

def leaves (ts : List Token) : List Tree := ts.map Tree.leaf

mutual
def WrittenType.trees : WrittenType → List Tree
  | .plain p => leaves p.tokens
  | .generic p o as c => leaves p.tokens ++ [.group .angle (o.sign ['<']) as.trees (c.sign ['>'])]

def WrittenArgument.trees : WrittenArgument → List Tree
  | .lifetime g n => [.leaf (g.lifetime n)]
  | .type ty => ty.trees

def WrittenArguments.trees : WrittenArguments → List Tree
  | .last a => a.trees
  | .cons a g as => a.trees ++ .leaf (g.sign [',']) :: as.trees
end

/-- The trees that a list of tokens is read as, wherever it stands. -/
def Nests (ts : List Token) (trees : List Tree) : Prop :=
  ∀ n : Nesting, ts.foldl Nesting.read n = ⟨n.groups, trees.reverse ++ n.trees⟩

theorem Nests.append {ts us : List Token} {xs ys : List Tree} (h : Nests ts xs) (h' : Nests us ys) :
    Nests (ts ++ us) (xs ++ ys) := by
  intro n
  rw [List.foldl_append, h n, h' _, List.reverse_append, List.append_assoc]

theorem nests_word (g : Gap) (n : Identifier) : Nests [g.word n] [.leaf (g.word n)] :=
  fun _ => rfl

theorem nests_lifetime (g : Gap) (n : LifetimeName) :
    Nests [g.lifetime n] [.leaf (g.lifetime n)] :=
  fun _ => rfl

theorem nests_colons (g : Gap) : Nests [g.sign [':', ':']] [.leaf (g.sign [':', ':'])] :=
  fun _ => rfl

theorem nests_comma (g : Gap) : Nests [g.sign [',']] [.leaf (g.sign [','])] :=
  fun _ => rfl

theorem Nests.group {ts : List Token} {xs : List Tree} (h : Nests ts xs) (o c : Gap) :
    Nests (o.sign ['<'] :: (ts ++ [c.sign ['>']]))
      [.group .angle (o.sign ['<']) xs (c.sign ['>'])] := by
  intro n
  have opened : n.read (o.sign ['<']) = ⟨⟨.angle, o.sign ['<'], n.trees⟩ :: n.groups, []⟩ := rfl
  have closed (m : Nesting) :
      m.read (c.sign ['>']) = m.closeInnermost .angle (c.sign ['>']) := rfl
  rw [List.foldl_cons, opened, List.foldl_append, h _, List.append_nil, List.foldl_cons,
    List.foldl_nil, closed, Nesting.closeInnermost]
  simp

theorem nests_steps (steps : List PathStep) :
    Nests (steps.flatMap PathStep.tokens) (leaves (steps.flatMap PathStep.tokens)) := by
  induction steps with
  | nil => exact fun _ => rfl
  | cons s steps ih =>
    have step := (nests_colons s.beforeColons).append (nests_word s.behindColons s.name)
    have all := step.append ih
    rw [List.flatMap_cons, leaves, List.map_append]
    exact all

theorem nests_path (p : WrittenPath) : Nests p.tokens (leaves p.tokens) :=
  (nests_word p.gap p.head).append (nests_steps p.steps)

mutual
theorem nests_type : ∀ w : WrittenType, Nests w.tokens w.trees
  | .plain p => nests_path p
  | .generic p o as c => by
    rw [WrittenType.tokens, WrittenType.trees]
    exact (nests_path p).append ((nests_arguments as).group o c)

theorem nests_argument : ∀ a : WrittenArgument, Nests a.tokens a.trees
  | .lifetime g n => nests_lifetime g n
  | .type ty => nests_type ty

theorem nests_arguments : ∀ as : WrittenArguments, Nests as.tokens as.trees
  | .last a => nests_argument a
  | .cons a g as => by
    rw [WrittenArguments.tokens, WrittenArguments.trees]
    exact (nests_argument a).append ((nests_comma g).append (nests_arguments as))
end

theorem Nests.treesOfTokens_eq {ts : List Token} {xs : List Tree} (h : Nests ts xs) :
    treesOfTokens ts = xs := by
  rw [treesOfTokens, h ⟨[], []⟩, List.append_nil]
  exact List.reverse_reverse xs

theorem Nests.tokensOfTrees_eq {ts : List Token} {xs : List Tree} (h : Nests ts xs) :
    tokensOfTrees xs = ts := by
  rw [← h.treesOfTokens_eq, tokensOfTrees_treesOfTokens]

end AnchorHarness.Rust
