import AnchorHarness.Proofs.Rust.RespelledTypes
import AnchorHarness.Proofs.Rust.WrittenTypes

/-!
# Types as they were written

A type in writing is read as what was written: its kind, its path, its arguments in order, and its
one canonical text, whatever blanks stand between its tokens.
-/

namespace AnchorHarness.Rust

open Text (isBlank)

/-! ### What was written -/

def WrittenPath.segments (p : WrittenPath) : List String :=
  p.head.name :: p.steps.map fun s => s.name.name

def WrittenPath.kind (p : WrittenPath) : TypeKind :=
  if p.steps.isEmpty then .typeIdentifier else .scopedTypeIdentifier

/-- The text of a path without blanks. -/
def WrittenPath.spelling (p : WrittenPath) : List Char :=
  p.head.name.toList ++ p.steps.flatMap fun s => ':' :: ':' :: s.name.name.toList

mutual
/-- The text of a type without blanks, but for one behind each comma. -/
def WrittenType.spelling : WrittenType → List Char
  | .plain p => p.spelling
  | .generic p _ as _ => p.spelling ++ '<' :: (as.spelling ++ ['>'])

def WrittenArgument.spelling : WrittenArgument → List Char
  | .lifetime _ n => n.name.toList
  | .type ty => ty.spelling

def WrittenArguments.spelling : WrittenArguments → List Char
  | .last a => a.spelling
  | .cons a _ as => a.spelling ++ ',' :: ' ' :: as.spelling
end

def LifetimeName.typeRef (n : LifetimeName) : TypeRef := ⟨n.name, .lifetime, [], []⟩

mutual
def WrittenType.typeRef : WrittenType → TypeRef
  | .plain p => ⟨String.ofList p.spelling, p.kind, p.segments, []⟩
  | .generic p o as c =>
    ⟨String.ofList (WrittenType.generic p o as c).spelling, .genericType, p.segments, as.typeRefs⟩

def WrittenArgument.typeRef : WrittenArgument → TypeRef
  | .lifetime _ n => n.typeRef
  | .type ty => ty.typeRef

def WrittenArguments.typeRefs : WrittenArguments → List TypeRef
  | .last a => [a.typeRef]
  | .cons a _ as => a.typeRef :: as.typeRefs
end

/-! ### The canonical text -/

/-- Behind blanks there is a sign that takes none, or nothing. -/
def SignAhead (rest : List Char) : Prop := ∀ s, respace s rest = respace .tight rest

theorem exists_respace_blank_append {b : List Char} (h : AllBlank b) (s : Spacing)
    (cs : List Char) : ∃ s', respace s (b ++ cs) = respace s' cs := by
  induction b generalizing s with
  | nil => exact ⟨s, rfl⟩
  | cons c b ih =>
    have behind : AllBlank b := fun d hd => h d (List.mem_cons_of_mem c hd)
    rw [List.cons_append, respace_blank (h c (List.mem_cons_self ..))]
    exact ih behind s.widen

theorem respace_sign {sign : List Char} (h : IsSign sign) (s : Spacing) (rest : List Char) :
    respace s (sign ++ rest) = respace .tight (sign ++ rest) := by
  cases h <;> rfl

theorem signAhead_sign (g : Gap) {sign : List Char} (h : IsSign sign) (rest : List Char) :
    SignAhead (g.blanks ++ (sign ++ rest)) := by
  intro s
  obtain ⟨s', he⟩ := exists_respace_blank_append g.isBlank s (sign ++ rest)
  rw [he, respace_blank_append rfl g.isBlank, respace_sign h]

theorem signAhead_blank {b : List Char} (h : AllBlank b) : SignAhead b := by
  intro s
  rw [respace_of_blank h, respace_of_blank h]

/-- The text in front of blanks and a sign, or at the end, is spelled apart from what follows. -/
def Spells (text spelling : List Char) : Prop :=
  ∀ rest, SignAhead rest → respace .tight (text ++ rest) = spelling ++ respace .tight rest

theorem spells_inert (g : Gap) {text : List Char} (inert : ∀ c ∈ text, IsInert c)
    (some : text ≠ []) : Spells (g.blanks ++ text) text := by
  intro rest ahead
  cases text with
  | nil => exact absurd rfl some
  | cons c text =>
    have first := inert c (List.mem_cons_self ..)
    have others : ∀ d ∈ text, IsInert d := fun d hd => inert d (List.mem_cons_of_mem c hd)
    rw [List.append_assoc, respace_blank_append rfl g.isBlank, List.cons_append,
      respace_inert first, respace_of_inert others, ahead]
    rfl

theorem respace_tight_sign (g : Gap) {sign : List Char} (h : IsSign sign) (other : sign ≠ [','])
    (rest : List Char) :
    respace .tight (g.blanks ++ (sign ++ rest)) = sign ++ respace .tight rest := by
  rw [respace_blank_append rfl g.isBlank]
  cases h with
  | colons => rfl
  | opening => rfl
  | closing => rfl
  | comma => exact absurd rfl other

theorem respace_tight_comma (g : Gap) (rest : List Char) :
    respace .tight (g.blanks ++ ([','] ++ rest)) = ',' :: ' ' :: respace .tight rest := by
  rw [respace_blank_append rfl g.isBlank]
  rfl

theorem isInert_of_isName {cs : List Char} (h : IsName cs) : ∀ c ∈ cs, IsInert c :=
  fun c hc => isInert_of_isNameCharacter (h.letters c hc)

theorem ne_nil_of_isName {cs : List Char} (h : IsName cs) : cs ≠ [] := by
  obtain ⟨c, front, rfl, -⟩ := h.starts
  exact List.cons_ne_nil c front

theorem spells_word (g : Gap) (n : Identifier) : Spells (bodyText [g.word n]) n.name.toList := by
  rw [bodyText_singleton]
  exact spells_inert g (isInert_of_isName n.isName) (ne_nil_of_isName n.isName)

theorem spells_lifetime (g : Gap) (n : LifetimeName) :
    Spells (bodyText [g.lifetime n]) n.name.toList := by
  obtain ⟨cs, text, isName⟩ := n.isName
  have inert : ∀ c ∈ n.name.toList, IsInert c := by
    rw [text]
    exact List.forall_mem_cons.mpr ⟨by decide, isInert_of_isName isName⟩
  have some : n.name.toList ≠ [] := by
    rw [text]
    exact List.cons_ne_nil '\'' cs
  rw [bodyText_singleton]
  exact spells_inert g inert some

theorem spells_steps (steps : List PathStep) {rest : List Char} (ahead : SignAhead rest) :
    SignAhead (bodyText (steps.flatMap PathStep.tokens) ++ rest) ∧
      respace .tight (bodyText (steps.flatMap PathStep.tokens) ++ rest) =
        (steps.flatMap fun s => ':' :: ':' :: s.name.name.toList) ++ respace .tight rest := by
  induction steps with
  | nil => exact ⟨ahead, rfl⟩
  | cons s steps ih =>
    obtain ⟨behind, spelled⟩ := ih
    have text : bodyText ((s :: steps).flatMap PathStep.tokens) ++ rest =
        s.beforeColons.blanks ++ ([':', ':'] ++ (bodyText [s.behindColons.word s.name] ++
          (bodyText (steps.flatMap PathStep.tokens) ++ rest))) := by
      rw [List.flatMap_cons, bodyText_append, List.append_assoc, PathStep.tokens, bodyText_sign]
    have name := spells_word s.behindColons s.name _ behind
    rw [text]
    refine ⟨signAhead_sign _ .colons _, ?_⟩
    rw [respace_tight_sign _ .colons (by decide), name, spelled, List.flatMap_cons,
      List.append_assoc]
    rfl

theorem spells_path (p : WrittenPath) : Spells (bodyText p.tokens) p.spelling := by
  intro rest ahead
  obtain ⟨behind, spelled⟩ := spells_steps p.steps ahead
  have text : bodyText p.tokens ++ rest =
      bodyText [p.gap.word p.head] ++ (bodyText (p.steps.flatMap PathStep.tokens) ++ rest) := by
    rw [← List.append_assoc, ← bodyText_append]
    rfl
  rw [text, spells_word p.gap p.head _ behind, spelled, WrittenPath.spelling, List.append_assoc]

mutual
theorem spells_type : ∀ w : WrittenType, Spells (bodyText w.tokens) w.spelling
  | .plain p => spells_path p
  | .generic p o as c => by
    intro rest ahead
    have opens := signAhead_sign o .opening (bodyText (as.tokens ++ [c.sign ['>']]) ++ rest)
    have closes := signAhead_sign c .closing rest
    have path := spells_path p _ opens
    have inner := spells_arguments as _ closes
    have text : bodyText (as.tokens ++ [c.sign ['>']]) ++ rest =
        bodyText as.tokens ++ (c.blanks ++ (['>'] ++ rest)) := by
      rw [bodyText_append, List.append_assoc, bodyText_sign]
      rfl
    rw [WrittenType.tokens, bodyText_append, List.append_assoc, bodyText_sign, path,
      respace_tight_sign _ .opening (by decide), text, inner,
      respace_tight_sign _ .closing (by decide), WrittenType.spelling]
    simp

theorem spells_argument : ∀ a : WrittenArgument, Spells (bodyText a.tokens) a.spelling
  | .lifetime g n => spells_lifetime g n
  | .type ty => spells_type ty

theorem spells_arguments : ∀ as : WrittenArguments, Spells (bodyText as.tokens) as.spelling
  | .last a => spells_argument a
  | .cons a g as => by
    intro rest ahead
    have comma := signAhead_sign g .comma (bodyText as.tokens ++ rest)
    rw [WrittenArguments.tokens, bodyText_append, List.append_assoc, bodyText_sign,
      spells_argument a _ comma, respace_tight_comma, spells_arguments as rest ahead,
      WrittenArguments.spelling]
    simp
end

/-- The blanks in front of a text are no part of its canonical text. -/
theorem Spells.canonicalType_eq {g : Gap} {t : Token} {ts : List Token} {spelling : List Char}
    (h : Spells (bodyText (t :: ts)) spelling) (gap : t.gap = g.blanks) :
    canonicalType (sourceText (t :: ts)) = spelling := by
  have all := h [] (signAhead_blank (by simp [AllBlank]))
  rw [List.append_nil, bodyText_cons, gap, respace_blank_append rfl g.isBlank] at all
  exact all.trans (List.append_nil spelling)

def WrittenType.path : WrittenType → WrittenPath
  | .plain p => p
  | .generic p _ _ _ => p

theorem exists_tokens_eq (w : WrittenType) :
    ∃ ts, w.tokens = w.path.gap.word w.path.head :: ts := by
  cases w with
  | plain p => exact ⟨_, rfl⟩
  | generic p o as c =>
    rw [WrittenType.tokens]
    exact ⟨_, rfl⟩

theorem canonicalType_type (w : WrittenType) :
    canonicalType (sourceText w.tokens) = w.spelling := by
  obtain ⟨ts, tokens⟩ := exists_tokens_eq w
  have spells := spells_type w
  rw [tokens] at spells ⊢
  exact spells.canonicalType_eq (g := w.path.gap) rfl

theorem canonicalType_lifetime (g : Gap) (n : LifetimeName) :
    canonicalType (sourceText [g.lifetime n]) = n.name.toList :=
  (spells_lifetime g n).canonicalType_eq (g := g) rfl

/-! ### The path -/

theorem cutColons_append {x : List Char} (h : ∀ c ∈ x, c ≠ ':') (y : List Char) :
    Text.cutColons (x ++ ':' :: ':' :: y) = x :: Text.cutColons y := by
  induction x with
  | nil => rfl
  | cons c x ih =>
    rw [List.cons_append, cutColons_of_ne (h c (List.mem_cons_self ..)),
      ih fun d hd => h d (List.mem_cons_of_mem c hd)]
    rfl

theorem cutColons_eq_singleton {x : List Char} (h : ∀ c ∈ x, c ≠ ':') : Text.cutColons x = [x] := by
  induction x with
  | nil => rfl
  | cons c x ih =>
    rw [cutColons_of_ne (h c (List.mem_cons_self ..)),
      ih fun d hd => h d (List.mem_cons_of_mem c hd)]
    rfl

/-- A name between blanks is a segment, and further segments stand behind a double colon. -/
theorem pathSegments_name (g b : Gap) (n : Identifier) :
    pathSegments (g.blanks ++ (n.name.toList ++ b.blanks)) = [n.name] ∧
      ∀ y, pathSegments (g.blanks ++ (n.name.toList ++ b.blanks) ++ ':' :: ':' :: y) =
        n.name :: pathSegments y := by
  have letters := isInert_of_isName n.isName
  have colons : ∀ c ∈ g.blanks ++ (n.name.toList ++ b.blanks), c ≠ ':' := by
    intro c hc
    simp only [List.mem_append] at hc
    rcases hc with hg | hn | hb
    · exact ne_colon_of_isBlank (g.isBlank c hg)
    · exact (letters c hn).2.2
    · exact ne_colon_of_isBlank (b.isBlank c hb)
  have trimmed : Text.trim (g.blanks ++ (n.name.toList ++ b.blanks)) = n.name.toList := by
    rw [← List.append_assoc, trim_append_blank _ b.isBlank, Text.trim, Text.trimStart,
      List.dropWhile_append_of_pos g.isBlank]
    exact trim_of_inert letters
  have kept : n.name.toList.isEmpty = false := by
    have some := ne_nil_of_isName n.isName
    cases he : n.name.toList with
    | nil => exact absurd he some
    | cons c cs => rfl
  constructor
  · rw [pathSegments, cutColons_eq_singleton colons]
    simp only [List.map_cons, List.map_nil, trimmed, List.filter, kept, Bool.not_false,
      String.ofList_toList]
  · intro y
    rw [pathSegments, cutColons_append colons]
    simp only [List.map_cons, trimmed, List.filter, kept, Bool.not_false, String.ofList_toList]
    rfl

def noGap : Gap := ⟨[], by simp [AllBlank]⟩

theorem pathSegments_steps (g : Gap) (n : Identifier) (steps : List PathStep) :
    pathSegments (g.blanks ++ (n.name.toList ++ bodyText (steps.flatMap PathStep.tokens))) =
      n.name :: steps.map fun s => s.name.name := by
  induction steps generalizing g n with
  | nil => exact (pathSegments_name g noGap n).1
  | cons s steps ih =>
    have text : bodyText ((s :: steps).flatMap PathStep.tokens) =
        s.beforeColons.blanks ++ (':' :: ':' :: (s.behindColons.blanks ++ (s.name.name.toList ++
          bodyText (steps.flatMap PathStep.tokens)))) := by
      rw [List.flatMap_cons, bodyText_append, PathStep.tokens, bodyText_sign, bodyText_singleton,
        List.append_assoc]
      rfl
    have further := (pathSegments_name g s.beforeColons n).2
    simp only [List.append_assoc] at further
    rw [text, further, ih, List.map_cons]

theorem pathSegments_path (p : WrittenPath) :
    pathSegments (sourceText p.tokens) = p.segments :=
  pathSegments_steps noGap p.head p.steps

/-! ### The parts of a type -/

/-- The trees that a type or an argument of one is made of. -/
inductive IsPart : Tree → Prop where
  | name (g : Gap) (n : Identifier) : IsPart (.leaf (g.word n))
  | lifetime (g : Gap) (n : LifetimeName) : IsPart (.leaf (g.lifetime n))
  | colons (g : Gap) : IsPart (.leaf (g.sign [':', ':']))
  | arguments (o c : Token) (body : List Tree) : IsPart (.group .angle o body c)

section

variable {t : Tree}

theorem IsPart.isComment_eq (h : IsPart t) : t.isComment = false := by
  cases h <;> rfl

theorem IsPart.isSymbol_eq (h : IsPart t) {symbol : String} (other : symbol ≠ "::") :
    t.isSymbol symbol = false := by
  cases h with
  | name => rfl
  | lifetime => rfl
  | colons g =>
    change ([':', ':'] == symbol.toList) = false
    apply beq_eq_false_iff_ne.mpr
    intro same
    apply other
    rw [← String.ofList_toList (s := symbol), ← same]
  | arguments => rfl

theorem IsPart.isWord_eq (h : IsPart t) {word : String} (keyword : word ∈ keywords) :
    t.isWord word = false := by
  cases h with
  | name g n =>
    change (n.name.toList == word.toList) = false
    apply beq_eq_false_iff_ne.mpr
    intro same
    rw [← String.toList_inj.mp same] at keyword
    exact n.noKeyword keyword
  | lifetime => rfl
  | colons => rfl
  | arguments => rfl

theorem IsPart.isGroup_eq (h : IsPart t) : t.isGroup .paren = false := by
  cases h <;> rfl

end

theorem isPart_steps (steps : List PathStep) :
    ∀ t ∈ leaves (steps.flatMap PathStep.tokens), IsPart t := by
  induction steps with
  | nil => simp [leaves]
  | cons s steps ih =>
    intro t ht
    rw [List.flatMap_cons, leaves, List.map_append] at ht
    rcases List.mem_append.mp ht with ht | ht
    · simp only [PathStep.tokens, List.map_cons, List.map_nil, List.mem_cons, List.not_mem_nil,
        or_false] at ht
      rcases ht with rfl | rfl
      · exact .colons s.beforeColons
      · exact .name s.behindColons s.name
    · exact ih t ht

theorem isPart_path (p : WrittenPath) : ∀ t ∈ leaves p.tokens, IsPart t :=
  List.forall_mem_cons.mpr ⟨.name p.gap p.head, isPart_steps p.steps⟩

theorem isPart_type (w : WrittenType) : ∀ t ∈ w.trees, IsPart t := by
  cases w with
  | plain p => exact isPart_path p
  | generic p o as c =>
    intro t ht
    rw [WrittenType.trees] at ht
    rcases List.mem_append.mp ht with ht | ht
    · exact isPart_path p t ht
    · rw [List.mem_singleton.mp ht]
      exact .arguments _ _ _

theorem isPart_argument (a : WrittenArgument) : ∀ t ∈ a.trees, IsPart t := by
  cases a with
  | lifetime g n =>
    intro t ht
    rw [WrittenArgument.trees] at ht
    rw [List.mem_singleton.mp ht]
    exact .lifetime g n
  | type ty => exact isPart_type ty

/-! ### The kind -/

theorem dropWhile_eq_self {α : Type} {p : α → Bool} {as : List α} (h : ∀ a ∈ as, p a = false) :
    as.dropWhile p = as := by
  cases as with
  | nil => rfl
  | cons a as => exact List.dropWhile_cons_of_neg (by simp [h a (List.mem_cons_self ..)])

theorem trim_eq_self {α : Type} {p : α → Bool} {as : List α} (h : ∀ a ∈ as, p a = false) :
    ((as.dropWhile p).reverse.dropWhile p).reverse = as := by
  have behind : ∀ a ∈ as.reverse, p a = false := fun a ha => h a (List.mem_reverse.mp ha)
  rw [dropWhile_eq_self h, dropWhile_eq_self behind, List.reverse_reverse]

theorem afterInnerSum_parts {ts : List Tree} (h : ∀ t ∈ ts, IsPart t) : afterInnerSum ts = ts := by
  have all : withoutComments ts = ts := by
    apply List.filter_eq_self.mpr
    intro t ht
    simp [(h t ht).isComment_eq]
  unfold afterInnerSum
  rw [all]
  split
  · next t u plus rest =>
    have part := h t (List.mem_cons_self ..)
    have sum : t.isWord "dyn" = false := part.isWord_eq (by decide)
    have some : t.isWord "impl" = false := part.isWord_eq (by decide)
    rw [sum, some]
    rfl
  · rfl

theorem find?_call_parts {ts : List Tree} (h : ∀ t ∈ ts, IsPart t) :
    ts.find? (fun t => t.isSymbol "!" || t.isGroup .paren) = none := by
  apply List.find?_eq_none.mpr
  intro t ht
  rw [(h t ht).isSymbol_eq (by decide), (h t ht).isGroup_eq]
  decide

theorem kindOfType_parts (g : Gap) (n : Identifier) {ts : List Tree}
    (h : ∀ t ∈ Tree.leaf (g.word n) :: ts, IsPart t) :
    kindOfType (.leaf (g.word n) :: ts) = kindOfPath (.leaf (g.word n) :: ts) := by
  have sum : (afterInnerSum (.leaf (g.word n) :: ts)).any (Tree.isSymbol "+") = false := by
    rw [afterInnerSum_parts h]
    apply List.any_eq_false.mpr
    intro t ht
    rw [(h t ht).isSymbol_eq (by decide)]
    decide
  have symbol (s : String) : (g.word n).isSymbol s = false := rfl
  have word (k : String) (keyword : k ∈ keywords) : (g.word n).isWord k = false :=
    (IsPart.name g n).isWord_eq keyword
  unfold kindOfType
  rw [sum, if_neg (by decide)]
  simp only [kindOfLeaf, symbol, Bool.false_eq_true, if_false, List.any_cons, List.any_nil,
    word "dyn" (by decide), word "impl" (by decide), word "fn" (by decide), word "for" (by decide),
    word "unsafe" (by decide), word "extern" (by decide), Bool.or_false]

theorem kindOfType_path (p : WrittenPath) : kindOfType (leaves p.tokens) = p.kind := by
  have parts := isPart_path p
  have last : ((leaves p.tokens).getLast?.map (Tree.isGroup .angle)).getD false = false := by
    cases hl : (leaves p.tokens).getLast? with
    | none => rfl
    | some t =>
      obtain ⟨u, -, rfl⟩ := List.mem_map.mp (List.mem_of_getLast? hl)
      rfl
  have first : kindOfType (leaves p.tokens) = kindOfPath (leaves p.tokens) :=
    kindOfType_parts p.gap p.head parts
  rw [first, WrittenPath.kind]
  unfold kindOfPath
  rw [find?_call_parts parts, last]
  cases hs : p.steps with
  | nil =>
    have tokens : leaves p.tokens = [.leaf (p.gap.word p.head)] := by
      rw [WrittenPath.tokens, hs]
      rfl
    have other : primitiveTypes.contains p.head.name = false := by
      have plain := p.notPrimitive hs
      simpa using plain
    have name : String.ofList (p.gap.word p.head).text = p.head.name := String.ofList_toList
    rw [tokens]
    simp only [name, other]
    rfl
  | cons s steps =>
    have tokens : leaves p.tokens = .leaf (p.gap.word p.head) ::
        .leaf (s.beforeColons.sign [':', ':']) :: .leaf (s.behindColons.word s.name) ::
          leaves (steps.flatMap PathStep.tokens) := by
      rw [WrittenPath.tokens, hs]
      rfl
    rw [tokens]
    rfl

theorem kindOfType_generic (p : WrittenPath) (o c : Token) (body : List Tree) :
    kindOfType (leaves p.tokens ++ [.group .angle o body c]) = .genericType := by
  have parts : ∀ t ∈ leaves p.tokens ++ [.group .angle o body c], IsPart t := by
    intro t ht
    rcases List.mem_append.mp ht with ht | ht
    · exact isPart_path p t ht
    · rw [List.mem_singleton.mp ht]
      exact .arguments _ _ _
  have first : kindOfType (leaves p.tokens ++ [.group .angle o body c]) =
      kindOfPath (leaves p.tokens ++ [.group .angle o body c]) :=
    kindOfType_parts p.gap p.head parts
  rw [first]
  unfold kindOfPath
  rw [find?_call_parts parts, List.getLast?_concat]
  rfl

/-! ### Reading the trees -/

theorem withTypeArguments_append (xs ys : List Tree) :
    withTypeArguments (xs ++ ys) = withTypeArguments xs ++ withTypeArguments ys := by
  induction xs with
  | nil => rfl
  | cons x xs ih =>
    rw [List.cons_append, withTypeArguments, withTypeArguments, ih, List.cons_append]

theorem mem_of_mem_withTypeArguments {a : WithArguments} {ts : List Tree}
    (h : a ∈ withTypeArguments ts) : a.1 ∈ ts := by
  rw [← map_fst_withTypeArguments ts]
  exact List.mem_map_of_mem h

theorem trimAnnotated_parts {ts : List Tree} (h : ∀ t ∈ ts, IsPart t) :
    trimAnnotated (withTypeArguments ts) = withTypeArguments ts :=
  trim_eq_self fun a ha => (h a.1 (mem_of_mem_withTypeArguments ha)).isComment_eq

theorem trimComments_parts {ts : List Tree} (h : ∀ t ∈ ts, IsPart t) : trimComments ts = ts :=
  trim_eq_self fun t ht => (h t ht).isComment_eq

theorem ofTrees_parts {ts : List Tree} (h : ∀ t ∈ ts, IsPart t) :
    TypeRef.ofTrees ts =
      typeOfTrees ts (((withTypeArguments ts).getLast?.map (·.2)).getD []) := by
  rw [TypeRef.ofTrees, typeOfAnnotated, trimAnnotated_parts h, map_fst_withTypeArguments]

theorem tokensOfTrees_path (p : WrittenPath) : tokensOfTrees (leaves p.tokens) = p.tokens :=
  (nests_path p).tokensOfTrees_eq

theorem ofTrees_plain (p : WrittenPath) :
    TypeRef.ofTrees (leaves p.tokens) = (WrittenType.plain p).typeRef := by
  have canonical : canonicalType (sourceText p.tokens) = p.spelling :=
    canonicalType_type (.plain p)
  rw [ofTrees_parts (isPart_path p), typeOfTrees, kindOfType_path, textOfTrees, tokensOfTrees_path,
    canonical, pathSegments_path, WrittenType.typeRef, WrittenPath.kind]
  cases p.steps.isEmpty <;> rfl

theorem ofTrees_generic (p : WrittenPath) (o c : Gap) (as : WrittenArguments)
    (inner : entriesOfArguments (withTypeArguments as.trees) = as.typeRefs) :
    TypeRef.ofTrees (WrittenType.generic p o as c).trees =
      (WrittenType.generic p o as c).typeRef := by
  have canonical := canonicalType_type (.generic p o as c)
  have tokens := (nests_type (.generic p o as c)).tokensOfTrees_eq
  have group : Tree.typeArguments (.group .angle (o.sign ['<']) as.trees (c.sign ['>'])) =
      as.typeRefs := by
    rw [Tree.typeArguments, inner]
  have last : ((withTypeArguments (WrittenType.generic p o as c).trees).getLast?.map (·.2)).getD
      [] = as.typeRefs := by
    rw [WrittenType.trees, withTypeArguments_append, withTypeArguments, withTypeArguments,
      List.getLast?_concat, group]
    rfl
  have front : beforeLast (WrittenType.generic p o as c).trees = leaves p.tokens := by
    rw [beforeLast, WrittenType.trees, List.dropLast_concat, trimComments_parts (isPart_path p)]
  have kind : kindOfType (WrittenType.generic p o as c).trees = .genericType := by
    rw [WrittenType.trees]
    exact kindOfType_generic p _ _ _
  rw [ofTrees_parts (isPart_type _), last, typeOfTrees, kind, front, textOfTrees, textOfTrees,
    tokens, tokensOfTrees_path, canonical, pathSegments_path, WrittenType.typeRef]
  rfl

/-! ### Reading the arguments -/

theorem cutAll_append {α : Type} {p : α → Bool} {xs : List α} {a : α}
    (h : ∀ x ∈ xs, p x = false) (ha : p a = true) (ys : List α) :
    Text.cutAll p (xs ++ a :: ys) = xs :: Text.cutAll p ys := by
  induction xs with
  | nil => rw [List.nil_append, Text.cutAll, if_pos ha]
  | cons x xs ih =>
    rw [List.cons_append, Text.cutAll, h x (List.mem_cons_self ..), if_neg (by decide),
      ih fun y hy => h y (List.mem_cons_of_mem x hy)]
    rfl

theorem cutAll_eq_singleton {α : Type} {p : α → Bool} {xs : List α} (h : ∀ x ∈ xs, p x = false) :
    Text.cutAll p xs = [xs] := by
  induction xs with
  | nil => rfl
  | cons x xs ih =>
    rw [Text.cutAll, h x (List.mem_cons_self ..), if_neg (by decide),
      ih fun y hy => h y (List.mem_cons_of_mem x hy)]
    rfl

theorem entriesOfArgument_parts {ts : List Tree} (h : ∀ t ∈ ts, IsPart t) (some : ts ≠ []) :
    entriesOfArgument (withTypeArguments ts) = [simpleArgument (withTypeArguments ts)] := by
  have present : (withTypeArguments ts).isEmpty = false := by
    cases ts with
    | nil => exact absurd rfl some
    | cons t ts => rfl
  have bounds : (withTypeArguments ts).dropWhile (fun a => !a.1.isSymbol ":") = [] := by
    apply List.dropWhile_eq_nil_iff.mpr
    intro a ha
    rw [(h a.1 (mem_of_mem_withTypeArguments ha)).isSymbol_eq (by decide)]
    rfl
  unfold entriesOfArgument
  dsimp only
  rw [trimAnnotated_parts h, present, bounds]
  rfl

theorem simpleArgument_parts {ts : List Tree} (h : ∀ t ∈ ts, IsPart t) :
    simpleArgument (withTypeArguments ts) =
      match literalKind? ts with
      | some kind => atomOfTrees kind ts
      | none => TypeRef.ofTrees ts := by
  have binding : (withTypeArguments ts).any (fun a => a.1.isSymbol "=") = false := by
    apply List.any_eq_false.mpr
    intro a ha
    rw [(h a.1 (mem_of_mem_withTypeArguments ha)).isSymbol_eq (by decide)]
    decide
  rw [simpleArgument_eq, binding, if_neg (by decide), map_fst_withTypeArguments]
  rfl

theorem literalKind?_type (w : WrittenType) : literalKind? w.trees = none := by
  have word (p : WrittenPath) (k : String) (keyword : k ∈ keywords) :
      (p.gap.word p.head).isWord k = false :=
    (IsPart.name p.gap p.head).isWord_eq keyword
  have name (p : WrittenPath) : kindOfLiteral? (p.gap.word p.head) = none := by
    change (if (p.gap.word p.head).isWord "true" || (p.gap.word p.head).isWord "false" then _
      else none) = none
    rw [word p "true" (by decide), word p "false" (by decide)]
    rfl
  cases w with
  | plain p =>
    rw [WrittenType.trees, WrittenPath.tokens]
    cases p.steps with
    | nil => exact name p
    | cons s steps => rfl
  | generic p o as c =>
    rw [WrittenType.trees, WrittenPath.tokens]
    cases p.steps with
    | nil => rfl
    | cons s steps => rfl

theorem trees_ne_nil (a : WrittenArgument) : a.trees ≠ [] := by
  cases a with
  | lifetime g n => exact List.cons_ne_nil _ _
  | type ty =>
    cases ty with
    | plain p => exact List.cons_ne_nil _ _
    | generic p o as c => exact List.append_ne_nil_of_right_ne_nil _ (List.cons_ne_nil _ _)

theorem atomOfTrees_lifetime (g : Gap) (n : LifetimeName) :
    atomOfTrees .lifetime [.leaf (g.lifetime n)] = n.typeRef := by
  have tokens : tokensOfTrees [.leaf (g.lifetime n)] = [g.lifetime n] :=
    (nests_lifetime g n).tokensOfTrees_eq
  rw [atomOfTrees, textOfTrees, tokens, canonicalType_lifetime, String.ofList_toList]
  rfl

mutual
theorem ofTrees_type : ∀ w : WrittenType, TypeRef.ofTrees w.trees = w.typeRef
  | .plain p => ofTrees_plain p
  | .generic p o as c => ofTrees_generic p o c as (entries_arguments as)

theorem entries_argument : ∀ a : WrittenArgument,
    entriesOfArgument (withTypeArguments a.trees) = [a.typeRef]
  | .lifetime g n => by
    have one := entriesOfArgument_parts (isPart_argument (.lifetime g n)) (trees_ne_nil _)
    have read := simpleArgument_parts (isPart_argument (.lifetime g n))
    rw [one, read, WrittenArgument.typeRef, ← atomOfTrees_lifetime g n]
    rfl
  | .type ty => by
    have one := entriesOfArgument_parts (isPart_argument (.type ty)) (trees_ne_nil _)
    have read := simpleArgument_parts (isPart_argument (.type ty))
    rw [WrittenArgument.trees] at one read ⊢
    rw [one, read, literalKind?_type, ofTrees_type ty, WrittenArgument.typeRef]

theorem entries_arguments : ∀ as : WrittenArguments,
    entriesOfArguments (withTypeArguments as.trees) = as.typeRefs
  | .last a => by
    have none : ∀ x ∈ withTypeArguments a.trees, x.1.isSymbol "," = false := fun x hx =>
      (isPart_argument a x.1 (mem_of_mem_withTypeArguments hx)).isSymbol_eq (by decide)
    rw [WrittenArguments.trees, entriesOfArguments, cutAll_eq_singleton none, List.flatMap_cons,
      entries_argument a]
    rfl
  | .cons a g as => by
    have none : ∀ x ∈ withTypeArguments a.trees, x.1.isSymbol "," = false := fun x hx =>
      (isPart_argument a x.1 (mem_of_mem_withTypeArguments hx)).isSymbol_eq (by decide)
    have others := entries_arguments as
    rw [entriesOfArguments] at others
    rw [WrittenArguments.trees, withTypeArguments_append, withTypeArguments, entriesOfArguments,
      cutAll_append none (by rfl), List.flatMap_cons, entries_argument a, others]
    rfl
end

/-! ### Reading a text -/

theorem leadingType_type (w : WrittenType) : leadingType w.trees = w.trees := by
  have inside : ∀ t ∈ w.trees, (!(t.isSymbol ";" || t.isWord "where")) = true := by
    intro t ht
    have part := isPart_type w t ht
    rw [part.isSymbol_eq (by decide), part.isWord_eq (by decide)]
    rfl
  rw [leadingType, List.takeWhile_eq_self_iff.mpr inside, trimComments_parts (isPart_type w)]

theorem holdsNoType_type (w : WrittenType) : holdsNoType w.trees = false := by
  have path (p : WrittenPath) (ts : List Tree) : holdsNoType (leaves p.tokens ++ ts) = false := by
    rw [WrittenPath.tokens]
    cases p.steps with
    | nil =>
      cases ts with
      | nil => rfl
      | cons t ts => rfl
    | cons s steps => rfl
  cases w with
  | plain p =>
    rw [WrittenType.trees, ← List.append_nil (leaves p.tokens)]
    exact path p []
  | generic p o as c =>
    rw [WrittenType.trees]
    exact path p _

theorem parse_text (w : WrittenType) (behind : Gap) :
    TypeRef.parse (w.text behind) = w.typeRef := by
  have trees : treesOfText (w.text behind).toList = w.trees := by
    rw [treesOfText, tokenize_text, (nests_type w).treesOfTokens_eq]
  unfold TypeRef.parse
  dsimp only
  rw [trees, leadingType_type, holdsNoType_type, if_neg (by decide), ofTrees_type]

/-! ### What is read -/

def WrittenType.kind : WrittenType → TypeKind
  | .plain p => p.kind
  | .generic .. => .genericType

def WrittenArguments.toList : WrittenArguments → List WrittenArgument
  | .last a => [a]
  | .cons a _ as => a :: as.toList

def WrittenType.arguments : WrittenType → List WrittenArgument
  | .plain _ => []
  | .generic _ _ as _ => as.toList

/-- The type that an argument is, unless it is a lifetime. -/
def WrittenArgument.type? : WrittenArgument → Option WrittenType
  | .lifetime .. => none
  | .type ty => some ty

/-- A type as it is read on its own. -/
def WrittenType.parsed (w : WrittenType) : TypeRef := TypeRef.parse (w.text noGap)

def WrittenArgument.parsed : WrittenArgument → TypeRef
  | .lifetime _ n => n.typeRef
  | .type ty => ty.parsed

theorem parsed_argument (a : WrittenArgument) : a.parsed = a.typeRef := by
  cases a with
  | lifetime g n => rfl
  | type ty => exact parse_text ty noGap

theorem typeRefs_eq : ∀ as : WrittenArguments, as.typeRefs = as.toList.map WrittenArgument.parsed
  | .last a => by
    rw [WrittenArguments.toList, List.map_singleton, parsed_argument]
    rfl
  | .cons a g as => by
    rw [WrittenArguments.toList, List.map_cons, parsed_argument, ← typeRefs_eq as]
    rfl

theorem isLifetime_typeRef (w : WrittenType) : w.typeRef.isLifetime = false := by
  cases w with
  | plain p =>
    change (p.kind == .lifetime) = false
    rw [WrittenPath.kind]
    cases p.steps.isEmpty <;> rfl
  | generic p o as c => rfl

theorem filter_parsed (as : List WrittenArgument) :
    (as.map WrittenArgument.parsed).filter (fun a => !a.isLifetime) =
      (as.filterMap WrittenArgument.type?).map WrittenType.parsed := by
  induction as with
  | nil => rfl
  | cons a as ih =>
    cases a with
    | lifetime g n => exact ih
    | type ty =>
      have kept : ty.parsed.isLifetime = false := by
        rw [WrittenType.parsed, parse_text, isLifetime_typeRef]
      rw [List.map_cons, WrittenArgument.parsed, List.filter_cons, kept, ih]
      rfl

theorem args_typeRef (w : WrittenType) :
    w.typeRef.args = w.arguments.map WrittenArgument.parsed := by
  cases w with
  | plain p => rfl
  | generic p o as c => exact typeRefs_eq as

/-- A type in writing, with blanks at will around its tokens, is read as what was written. -/
theorem TypeRef.parse_written (w : WrittenType) (behind : Gap) :
    (TypeRef.parse (w.text behind)).kind = w.kind ∧
      (TypeRef.parse (w.text behind)).path = w.path.segments ∧
      (TypeRef.parse (w.text behind)).args = w.arguments.map WrittenArgument.parsed ∧
      (TypeRef.parse (w.text behind)).typeArgs =
        (w.arguments.filterMap WrittenArgument.type?).map WrittenType.parsed ∧
      (TypeRef.parse (w.text behind)).text = String.ofList w.spelling := by
  rw [parse_text]
  have args := args_typeRef w
  have types : w.typeRef.typeArgs =
      (w.arguments.filterMap WrittenArgument.type?).map WrittenType.parsed := by
    rw [TypeRef.typeArgs, args, filter_parsed]
  cases w with
  | plain p => exact ⟨rfl, rfl, args, types, rfl⟩
  | generic p o as c => exact ⟨rfl, rfl, args, types, rfl⟩

def boxName : Identifier := ⟨"Box", ⟨⟨'B', _, rfl, rfl⟩, List.all_eq_true.mp rfl⟩, by decide⟩

def vaultName : Identifier := ⟨"Vault", ⟨⟨'V', _, rfl, rfl⟩, List.all_eq_true.mp rfl⟩, by decide⟩

def oneBlank : Gap := ⟨[' '], List.all_eq_true.mp rfl⟩

def boxedVault : WrittenType :=
  .generic ⟨noGap, boxName, [], by decide⟩ oneBlank
    (.last (.type (.plain ⟨oneBlank, vaultName, [], by decide⟩))) noGap

example : boxedVault.text oneBlank = "Box < Vault> " ∧
    String.ofList boxedVault.spelling = "Box<Vault>" := by
  decide

end AnchorHarness.Rust
