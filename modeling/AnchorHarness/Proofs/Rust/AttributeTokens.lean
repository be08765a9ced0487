import AnchorHarness.Proofs.Rust.ArgumentText
import AnchorHarness.Proofs.Rust.Bare

/-!
# Arguments in the tokens of an attribute

An argument of an attribute is declared by the tokens of the argument list: commas and brackets
count where they are tokens of their own. The cut by characters finds the same, as long as no
literal and no comment changes the depth or has one of the names behind a comma.
-/

namespace AnchorHarness.Rust

open Text (isBlank)

/-! ### Kinds of token -/

theorem isSymbol_iff {t : Token} {symbol : String} :
    t.isSymbol symbol = true ↔ t.kind = .symbol ∧ t.text = symbol.toList := by
  simp [Token.isSymbol]

theorem isWord_iff {t : Token} {word : String} :
    t.isWord word = true ↔ t.kind = .word ∧ t.text = word.toList := by
  simp [Token.isWord]

/-! ### Declared arguments -/

/-- What a token adds to the depth. -/
def Token.depth (t : Token) : Int := if t.kind = .symbol then nesting t.text else 0

def depthOf : List Token → Int
  | [] => 0
  | t :: ts => t.depth + depthOf ts

/-- An argument begins behind the tokens: there are none, or the last is a comma outside of every
bracket. -/
def StartsArgument (before : List Token) : Prop :=
  before = [] ∨ ∃ front comma, before = front ++ [comma] ∧ comma.isSymbol "," = true ∧
    depthOf front = 0

/-- A comma, an equals sign, or an arrow, which begins with one. -/
def Token.endsKey (t : Token) : Bool := t.isSymbol "," || t.isSymbol "=" || t.isSymbol "=>"

def EndsKey (after : List Token) : Prop := ∀ t ∈ after.head?, t.endsKey = true

/-- One of the arguments in the list is the name, alone or with a value. -/
def Declares (name : String) (body : List Token) : Prop :=
  ∃ before t after, body = before ++ t :: after ∧ StartsArgument before ∧ t.isWord name = true ∧
    EndsKey after

/-! ### Quiet tokens -/

/-- No literal or comment changes the depth, and none has a comma outside of every bracket behind
which one of the names stands. -/
def Token.IsQuiet (names : List String) (depth : Int) (behind : List Char) (t : Token) : Prop :=
  t.kind ≠ .symbol → nesting t.text = 0 ∧
    ∀ r ∈ behindCommas depth t.text, ∀ name ∈ names,
      name.toList.isPrefixOf (Text.trimStart (r ++ behind)) = false

def IsQuiet (names : List String) : Int → List Token → Prop
  | _, [] => True
  | depth, t :: ts => t.IsQuiet names depth (bodyText ts) ∧ IsQuiet names (depth + t.depth) ts

instance (names : List String) (depth : Int) (behind : List Char) (t : Token) :
    Decidable (t.IsQuiet names depth behind) := by
  unfold Token.IsQuiet
  infer_instance

instance IsQuiet.decide (names : List String) :
    ∀ (depth : Int) (ts : List Token), Decidable (IsQuiet names depth ts)
  | _, [] => isTrue trivial
  | depth, t :: ts =>
    have := IsQuiet.decide names (depth + t.depth) ts
    inferInstanceAs (Decidable (_ ∧ _))

/-! ### Signs -/

def doubleSigns : List (List Char) := [[':', ':'], ['-', '>'], ['=', '>']]

theorem kind_afterLetter (c : Char) (cs : List Char) : (afterLetter c cs).1 ≠ .symbol := by
  have raw (skip : Nat) (rest : List Char) : (afterLetter.openRaw cs skip rest).1 ≠ .symbol := by
    unfold afterLetter.openRaw
    split
    · simp
    · split
      · split <;> simp
      · simp
  unfold afterLetter
  split
  all_goals first | exact raw _ _ | simp

theorem afterQuote_symbol {cs : List Char} (h : (afterQuote cs).1 = .symbol) :
    (afterQuote cs).2 = 0 := by
  unfold afterQuote at h ⊢
  split at h
  · cases h
  · split at h
    · next quote => rw [if_pos quote]
    · cases h
  · split at h
    · cases h
    · next letter => rw [if_neg letter]
  · rfl

/-- A sign is one character, or one of three of two characters. -/
theorem lexeme_symbol {c : Char} {r : List Char} (h : (lexeme c r).1 = .symbol) :
    r.take (lexeme c r).2 = [] ∨ c :: r.take (lexeme c r).2 ∈ doubleSigns := by
  unfold lexeme at h ⊢
  split at h
  · cases h
  · cases h
  · cases h
  · left
    rw [afterQuote_symbol h]
    rfl
  · exact .inr (by simp [doubleSigns])
  · exact .inr (by simp [doubleSigns])
  · exact .inr (by simp [doubleSigns])
  · left
    split at h
    · rw [kind_afterDigit] at h
      cases h
    · next digit =>
      split at h
      · exact absurd h (kind_afterLetter _ _)
      · next letter =>
        rw [if_neg digit, if_neg letter]
        rfl

def Token.IsSign (t : Token) : Prop :=
  t.kind = .symbol → (∃ c, t.text = [c]) ∨ t.text ∈ doubleSigns

theorem Token.IsSign.behindCommas_eq {t : Token} (h : t.IsSign) (kind : t.kind = .symbol)
    (depth : Int) :
    behindCommas depth t.text = if t.text = [','] ∧ depth = 0 then [[]] else [] := by
  obtain ⟨c, text⟩ | double := h kind
  · rw [text, behindCommas, behindCommas, behindCommas]
    simp only [List.cons.injEq, and_true]
  · simp only [doubleSigns, List.mem_cons, List.not_mem_nil, or_false] at double
    rcases double with text | text | text <;> rw [text] <;> simp [behindCommas]

/-! ### Tokens in a row -/

/-- Tokens as their text is read. -/
def Lexed (ts : List Token) : Prop := tokenize (bodyText ts) = ts

theorem tokenize_cases (cs : List Char) :
    (tokenize cs = [] ∧ ∀ c ∈ cs, isGap c = true) ∨
      ∃ t rest, cs = t.gap ++ (t.text ++ rest) ∧ tokenize cs = t :: tokenize rest ∧ t.IsSign ∧
        t.text ≠ [] := by
  obtain all | ⟨g, c, r, rfl, hg, hc⟩ := exists_gap_append cs
  · exact .inl ⟨tokenize_gap all, all⟩
  · refine .inr ⟨⟨g, (lexeme c r).1, c :: r.take (lexeme c r).2⟩, r.drop (lexeme c r).2, ?_,
      tokenize_append hg hc, ?_, List.cons_ne_nil _ _⟩
    · rw [List.cons_append, List.take_append_drop]
    · intro kind
      obtain single | double := lexeme_symbol kind
      · exact .inl ⟨c, congrArg (c :: ·) single⟩
      · exact .inr double

theorem Lexed.cons {t : Token} {ts : List Token} (h : Lexed (t :: ts)) :
    t.IsSign ∧ t.text ≠ [] ∧ Lexed ts := by
  obtain ⟨none, -⟩ | ⟨u, rest, text, read, sign, some⟩ := tokenize_cases (bodyText (t :: ts))
  · rw [Lexed, none] at h
    cases h
  · rw [Lexed, read] at h
    obtain ⟨rfl, others⟩ := List.cons.inj h
    rw [bodyText_cons] at text
    have same := List.append_cancel_left (List.append_cancel_left text)
    rw [Lexed, same]
    exact ⟨sign, some, others⟩

theorem Lexed.right {xs ys : List Token} (h : Lexed (xs ++ ys)) : Lexed ys := by
  induction xs with
  | nil => exact h
  | cons x xs ih => exact ih h.cons.2.2

/-! ### The argument at the front -/

theorem endsName_gap {b : List Char} (hb : AllBlank b) {cs : List Char} (h : EndsName cs) :
    EndsName (b ++ cs) := by
  cases b with
  | nil => exact h
  | cons c b => exact endsName_of_loose (loose_blank (hb c (List.mem_cons_self ..)) (b ++ cs))

theorem exists_tokenize_endsKey {c : Char} (hc : c ∈ ['=', ',']) {b : List Char} (hb : AllBlank b)
    (rest : List Char) : ∃ u us, tokenize (b ++ c :: rest) = u :: us ∧ u.endsKey = true := by
  simp only [List.mem_cons, List.not_mem_nil, or_false] at hc
  rcases hc with rfl | rfl
  · by_cases arrow : rest.head? = some '>'
    · obtain ⟨rest, rfl⟩ := List.head?_eq_some_iff.mp arrow
      exact ⟨_, _, tokenize_append (isGap_of_allBlank hb) (by decide), rfl⟩
    · refine ⟨_, _, tokenize_append (isGap_of_allBlank hb) (by decide), ?_⟩
      rw [lexeme_arrow (.inr rfl) arrow]
      rfl
  · exact ⟨_, _, tokenize_append (isGap_of_allBlank hb) (by decide), rfl⟩

theorem endsKey_head {t : Token} (h : t.endsKey = true) (rest : List Char) :
    ∀ c ∈ (t.text ++ rest).head?, c ∈ ['=', ','] := by
  simp only [Token.endsKey, Bool.or_eq_true, isSymbol_iff] at h
  obtain (⟨-, text⟩ | ⟨-, text⟩) | ⟨-, text⟩ := h <;> simp [text]

theorem endsName_closed {b q : List Char} (hb : AllBlank b)
    (sign : ∀ c ∈ q.head?, c ∈ ['=', ',']) : EndsName (b ++ (q ++ [')'])) := by
  apply endsName_gap hb
  intro c hc
  cases q with
  | nil =>
    obtain rfl : ')' = c := Option.some.inj hc
    decide
  | cons d q =>
    obtain rfl : d = c := Option.some.inj hc
    have either := sign d rfl
    simp only [List.mem_cons, List.not_mem_nil, or_false] at either
    rcases either with rfl | rfl <;> decide

theorem endsKey_of_tokenize {b q : List Char} (hb : AllBlank b)
    (sign : ∀ c ∈ q.head?, c ∈ ['=', ',']) {after : List Token} {closing : Token}
    (read : after ++ [closing] = tokenize (b ++ (q ++ [')']))) : EndsKey after := by
  cases q with
  | nil =>
    have alone : tokenize (b ++ ([] ++ [')'])) = [⟨b, .symbol, [')']⟩] := by
      rw [List.nil_append, tokenize_append (isGap_of_allBlank hb) (by decide)]
      exact congrArg _ (tokenize_gap (by simp))
    have length : (after ++ [closing]).length = 1 := by
      rw [read, alone]
      rfl
    rw [List.length_append] at length
    rw [List.eq_nil_of_length_eq_zero (Nat.succ_injective length)]
    exact fun u hu => by cases hu
  | cons c q =>
    obtain ⟨u, us, he, ends⟩ := exists_tokenize_endsKey (sign c rfl) hb (q ++ [')'])
    rw [List.cons_append, he] at read
    intro v hv
    cases after with
    | nil => cases hv
    | cons w after =>
      obtain rfl : w = v := Option.some.inj hv
      rw [(List.cons.inj read).1]
      exact ends

section

variable {name : String} (isName : IsName name.toList) {closing : Token}
include isName

theorem exists_token_of_opens (closes : closing.isSymbol ")" = true) {body : List Token}
    (lexed : Lexed (body ++ [closing]))
    (opens : Opens name.toList ['=', ','] (bodyText body ++ closing.gap)) :
    ∃ t after, body = t :: after ∧ t.isWord name = true ∧ EndsKey after := by
  -- The list is read together with its closing parenthesis: without it, its last token may end
  -- elsewhere.
  obtain ⟨symbol, paren⟩ := isSymbol_iff.mp closes
  obtain ⟨g, b, q, text, hg, hb, sign⟩ := opens
  have whole : bodyText (body ++ [closing]) = g ++ (name.toList ++ (b ++ (q ++ [')']))) := by
    have closed : bodyText (body ++ [closing]) = bodyText body ++ closing.gap ++ [')'] := by
      rw [bodyText_append, bodyText_singleton, paren, List.append_assoc]
      rfl
    rw [closed, text]
    simp only [List.append_assoc]
  have read : body ++ [closing] = ⟨g, .word, name.toList⟩ :: tokenize (b ++ (q ++ [')'])) := by
    rw [← tokenize_name hg isName (endsName_closed hb sign), ← whole, lexed]
  cases body with
  | nil =>
    obtain ⟨rfl, -⟩ := List.cons.inj read
    cases symbol
  | cons t after =>
    obtain ⟨rfl, others⟩ := List.cons.inj read
    exact ⟨_, after, rfl, isWord_iff.mpr ⟨rfl, rfl⟩, endsKey_of_tokenize hb sign others⟩

omit isName in
theorem opens_of_token {t : Token} {after : List Token} (word : t.isWord name = true)
    (ends : EndsKey after) (gaps : ∀ u ∈ t :: after ++ [closing], AllBlank u.gap) :
    Opens name.toList ['=', ','] (bodyText (t :: after) ++ closing.gap) := by
  obtain ⟨-, text⟩ := isWord_iff.mp word
  have first : AllBlank t.gap := gaps t (List.mem_cons_self ..)
  cases after with
  | nil =>
    refine ⟨t.gap, closing.gap, [], ?_, first, gaps closing (by simp), by simp⟩
    rw [bodyText_singleton, text, List.append_nil, List.append_assoc]
  | cons u after =>
    refine ⟨t.gap, u.gap, u.text ++ (bodyText after ++ closing.gap), ?_, first,
      gaps u (by simp), endsKey_head (ends u rfl) _⟩
    rw [bodyText_cons, bodyText_cons, text]
    simp only [List.append_assoc]

/-- The name that a list begins with, in the text of the list and in its tokens. -/
theorem opens_iff (closes : closing.isSymbol ")" = true) {body : List Token}
    (lexed : Lexed (body ++ [closing])) (gaps : ∀ t ∈ body ++ [closing], AllBlank t.gap) :
    Opens name.toList ['=', ','] (bodyText body ++ closing.gap) ↔
      ∃ t after, body = t :: after ∧ t.isWord name = true ∧ EndsKey after := by
  constructor
  · exact exists_token_of_opens isName closes lexed
  · rintro ⟨t, after, rfl, word, ends⟩
    exact opens_of_token word ends gaps

/-! ### The arguments behind commas -/

/-- A literal or comment in which one of the names seems to begin is not quiet. -/
theorem not_opens_of_isPrefixOf {cs behind : List Char}
    (h : name.toList.isPrefixOf (Text.trimStart (cs ++ behind)) = false) (signs : List Char) :
    ¬Opens name.toList signs cs := by
  rintro ⟨g, b, q, rfl, hg, -⟩
  have text : g ++ (name.toList ++ (b ++ q)) ++ behind =
      g ++ (name.toList ++ (b ++ (q ++ behind))) := by
    simp only [List.append_assoc]
  rw [text, trimStart_name isName hg] at h
  have begins : name.toList.isPrefixOf (name.toList ++ (b ++ (q ++ behind))) = true :=
    List.isPrefixOf_iff_prefix.mpr (List.prefix_append ..)
  rw [begins] at h
  cases h

/-- Behind a token in the list the name begins an argument just if the token is a comma outside of
every bracket. -/
theorem exists_opens_token_iff {names : List String} (named : name ∈ names) {depth : Int}
    {t : Token} (sign : t.IsSign) {behind closed : List Char}
    (quiet : t.IsQuiet names depth (behind ++ closed)) :
    (∃ r ∈ (behindCommas depth t.text).map (· ++ behind), Opens name.toList ['=', ','] r) ↔
      t.isSymbol "," = true ∧ depth = 0 ∧ Opens name.toList ['=', ','] behind := by
  by_cases kind : t.kind = .symbol
  · have comma : t.isSymbol "," = true ↔ t.text = [','] := by simp [isSymbol_iff, kind]
    rw [comma, sign.behindCommas_eq kind]
    split
    · next cut => simp [cut]
    · next other =>
      constructor
      · rintro ⟨r, hr, -⟩
        cases hr
      · rintro ⟨text, zero, -⟩
        exact absurd ⟨text, zero⟩ other
  · constructor
    · rintro ⟨r, hr, opens⟩
      obtain ⟨inner, hm, rfl⟩ := List.mem_map.mp hr
      have silent := (quiet kind).2 inner hm name named
      rw [← List.append_assoc] at silent
      exact absurd opens (not_opens_of_isPrefixOf isName silent _)
    · rintro ⟨comma, -⟩
      exact absurd (isSymbol_iff.mp comma).1 kind

theorem exists_opens_behindCommas_iff {names : List String} (named : name ∈ names) {depth : Int}
    {body : List Token} (lexed : Lexed (body ++ [closing]))
    (gaps : ∀ t ∈ body ++ [closing], AllBlank t.gap)
    (quiet : IsQuiet names depth (body ++ [closing])) :
    (∃ r ∈ behindCommas depth (bodyText body ++ closing.gap), Opens name.toList ['=', ','] r) ↔
      ∃ front comma rest, body = front ++ comma :: rest ∧ comma.isSymbol "," = true ∧
        depth + depthOf front = 0 ∧
        Opens name.toList ['=', ','] (bodyText rest ++ closing.gap) := by
  -- Along the tokens, at any depth; a quiet token leaves the depth to the symbols.
  induction body generalizing depth with
  | nil =>
    have flat := flat_of_allBlank (gaps closing (List.mem_cons_self ..))
    constructor
    · rintro ⟨r, hr, -⟩
      rw [bodyText, List.flatMap_nil, List.nil_append, flat.behindCommas_eq] at hr
      cases hr
    · rintro ⟨front, comma, rest, he, -⟩
      exact absurd he.symm (List.append_ne_nil_of_right_ne_nil _ (List.cons_ne_nil _ _))
  | cons t body ih =>
    rw [List.cons_append] at lexed quiet
    obtain ⟨sign, -, others⟩ := lexed.cons
    obtain ⟨here, behind⟩ := quiet
    have flat := flat_of_allBlank (gaps t (List.mem_cons_self ..))
    have closed : bodyText (body ++ [closing]) = bodyText body ++ closing.gap ++ closing.text := by
      rw [bodyText_append, bodyText_singleton, List.append_assoc]
    have cut : behindCommas depth (bodyText (t :: body) ++ closing.gap) =
        (behindCommas depth t.text).map (· ++ (bodyText body ++ closing.gap)) ++
          behindCommas (depth + t.depth) (bodyText body ++ closing.gap) := by
      have nest : nesting t.text = t.depth := by
        rw [Token.depth]
        split
        · rfl
        · next kind => exact (here kind).1
      rw [bodyText_cons, List.append_assoc, List.append_assoc, behindCommas_append,
        flat.behindCommas_eq, flat.nesting_eq, Int.add_zero, List.map_nil, List.nil_append,
        behindCommas_append, nest]
    have further := ih others (fun u hu => gaps u (List.mem_cons_of_mem t hu)) behind
    rw [closed] at here
    rw [cut]
    simp only [List.mem_append, or_and_right, exists_or]
    rw [exists_opens_token_iff isName named sign here, further]
    constructor
    · rintro (⟨comma, rfl, opens⟩ | ⟨front, comma, rest, rfl, isComma, zero, opens⟩)
      · exact ⟨[], t, body, rfl, comma, rfl, opens⟩
      · refine ⟨t :: front, comma, rest, rfl, isComma, ?_, opens⟩
        rw [depthOf, ← Int.add_assoc]
        exact zero
    · rintro ⟨front, comma, rest, he, isComma, zero, opens⟩
      cases front with
      | nil =>
        obtain ⟨rfl, rfl⟩ := List.cons.inj he
        exact .inl ⟨isComma, (Int.add_zero depth).symm.trans zero, opens⟩
      | cons u front =>
        obtain ⟨rfl, rfl⟩ := List.cons.inj he
        refine .inr ⟨front, comma, rest, rfl, isComma, ?_, opens⟩
        rw [depthOf, ← Int.add_assoc] at zero
        exact zero

/-- In a list of quiet tokens the cut by characters finds the arguments that the tokens declare. -/
theorem exists_keyOf_iff_declares {names : List String} (named : name ∈ names)
    (closes : closing.isSymbol ")" = true) {body : List Token} (lexed : Lexed (body ++ [closing]))
    (gaps : ∀ t ∈ body ++ [closing], AllBlank t.gap) (quiet : IsQuiet names 0 (body ++ [closing])) :
    (∃ argument ∈ cutArguments 0 [] (bodyText body ++ closing.gap),
        keyOf argument = name.toList) ↔ Declares name body := by
  rw [exists_keyOf_iff isName, List.exists_mem_cons_iff, opens_iff isName closes lexed gaps,
    exists_opens_behindCommas_iff isName named lexed gaps quiet]
  constructor
  · rintro (⟨t, after, rfl, word, ends⟩ | ⟨front, comma, rest, rfl, isComma, zero, opens⟩)
    · exact ⟨[], t, after, rfl, .inl rfl, word, ends⟩
    · rw [List.append_assoc] at lexed gaps
      have others := lexed.right.cons.2.2
      have behind : ∀ t ∈ rest ++ [closing], AllBlank t.gap := fun t ht =>
        gaps t (List.mem_append_right front (List.mem_cons_of_mem comma ht))
      obtain ⟨t, after, rfl, word, ends⟩ := (opens_iff isName closes others behind).mp opens
      have depth : depthOf front = 0 := (Int.zero_add _).symm.trans zero
      refine ⟨front ++ [comma], t, after, ?_, .inr ⟨front, comma, rfl, isComma, depth⟩, word, ends⟩
      rw [List.append_assoc]
      rfl
  · rintro ⟨before, t, after, rfl, rfl | ⟨front, comma, rfl, isComma, depth⟩, word, ends⟩
    · exact .inl ⟨t, after, rfl, word, ends⟩
    · simp only [List.append_assoc] at lexed gaps
      have others := lexed.right.cons.2.2
      have behind : ∀ u ∈ t :: after ++ [closing], AllBlank u.gap := fun u hu =>
        gaps u (List.mem_append_right front (List.mem_cons_of_mem comma hu))
      refine .inr ⟨front, comma, t :: after, List.append_assoc .., isComma,
        (Int.zero_add _).trans depth, ?_⟩
      exact (opens_iff isName closes others behind).mpr ⟨t, after, rfl, word, ends⟩

end

/-! ### Comments -/

def Token.isComment (t : Token) : Bool := t.kind == .comment

/-- The tokens without their comments. -/
def solid (ts : List Token) : List Token := ts.filter fun t => !t.isComment

theorem solid_append (xs ys : List Token) : solid (xs ++ ys) = solid xs ++ solid ys :=
  List.filter_append ..

theorem solid_cons {t : Token} (h : t.isComment = false) (ts : List Token) :
    solid (t :: ts) = t :: solid ts :=
  List.filter_cons_of_pos (by simp [h])

theorem head?_solid {ts : List Token} (h : ∀ t ∈ ts.head?, t.isComment = false) :
    (solid ts).head? = ts.head? := by
  cases ts with
  | nil => rfl
  | cons t ts => rw [solid_cons (h t rfl), List.head?_cons, List.head?_cons]

theorem solid_append_singleton {t : Token} (h : t.isComment = false) (ts : List Token) :
    solid (ts ++ [t]) = solid ts ++ [t] := by
  rw [solid_append, solid_cons h]
  rfl

theorem getLast?_solid {ts : List Token} (h : ∀ t ∈ ts.getLast?, t.isComment = false) :
    (solid ts).getLast? = ts.getLast? := by
  obtain rfl | ⟨front, t, rfl⟩ := List.eq_nil_or_concat' ts
  · rfl
  · have last : (front ++ [t]).getLast? = some t := List.getLast?_concat
    rw [solid_append_singleton (h t last), List.getLast?_concat, last]

theorem not_isComment_of_isSymbol {t : Token} {symbol : String} (h : t.isSymbol symbol = true) :
    t.isComment = false := by
  obtain ⟨gap, kind, text⟩ := t
  cases kind <;> first | rfl | cases h

theorem not_isComment_of_isWord {t : Token} {word : String} (h : t.isWord word = true) :
    t.isComment = false := by
  obtain ⟨gap, kind, text⟩ := t
  cases kind <;> first | rfl | cases h

theorem not_isComment_of_endsKey {t : Token} (h : t.endsKey = true) : t.isComment = false := by
  simp only [Token.endsKey, Bool.or_eq_true] at h
  obtain (comma | sign) | arrow := h
  · exact not_isComment_of_isSymbol comma
  · exact not_isComment_of_isSymbol sign
  · exact not_isComment_of_isSymbol arrow

theorem depthOf_solid (ts : List Token) : depthOf (solid ts) = depthOf ts := by
  induction ts with
  | nil => rfl
  | cons t ts ih =>
    cases hc : t.isComment with
    | false => rw [solid_cons hc, depthOf, depthOf, ih]
    | true =>
      have other : t.depth = 0 := by
        have kind : t.kind = .comment := by simpa [Token.isComment] using hc
        simp [Token.depth, kind]
      have dropped : solid (t :: ts) = solid ts := List.filter_cons_of_neg (by simp [hc])
      rw [dropped, ih, depthOf, other, Int.zero_add]

/-- No comment stands beside one of the names where it is an argument once comments are skipped. -/
def CommentsApart (names : List String) (body : List Token) : Prop :=
  ∀ before t after, body = before ++ t :: after → (∃ name ∈ names, t.isWord name = true) →
    StartsArgument (solid before) → EndsKey (solid after) →
      (∀ c ∈ before.getLast?, c.isComment = false) ∧ ∀ c ∈ after.head?, c.isComment = false

theorem Declares.solid {name : String} {body : List Token} (h : Declares name body) :
    Declares name (solid body) := by
  obtain ⟨before, t, after, rfl, starts, word, ends⟩ := h
  refine ⟨Rust.solid before, t, Rust.solid after, ?_, ?_, word, ?_⟩
  · rw [solid_append, solid_cons (not_isComment_of_isWord word)]
  · obtain rfl | ⟨front, comma, rfl, isComma, depth⟩ := starts
    · exact .inl rfl
    · exact .inr ⟨Rust.solid front, comma,
        solid_append_singleton (not_isComment_of_isSymbol isComma) front, isComma,
        (depthOf_solid front).trans depth⟩
  · rw [EndsKey, head?_solid fun u hu => not_isComment_of_endsKey (ends u hu)]
    exact ends

/-- Skipping comments finds no further arguments, as long as none stands beside a name. -/
theorem Declares.of_solid {names : List String} {name : String} (named : name ∈ names)
    {body : List Token} (apart : CommentsApart names body) (h : Declares name (Rust.solid body)) :
    Declares name body := by
  -- Comments that were skipped in front of the name would stand beside it, so there were none.
  obtain ⟨before', t, after', text, starts, word, ends⟩ := h
  obtain ⟨xs, ys, rfl, kept, behind⟩ := List.filter_eq_append_iff.mp text
  obtain ⟨comments, after, rfl, skipped, -, rfl⟩ := List.filter_eq_cons_iff.mp behind
  have none : Rust.solid comments = [] := List.filter_eq_nil_iff.mpr skipped
  have before : Rust.solid (xs ++ comments) = before' := by
    rw [solid_append, none, List.append_nil]
    exact kept
  have split : xs ++ (comments ++ t :: after) = (xs ++ comments) ++ t :: after :=
    (List.append_assoc ..).symm
  rw [split] at apart ⊢
  generalize xs ++ comments = front at before apart
  rw [← before] at starts
  obtain ⟨last, next⟩ := apart front t after rfl ⟨name, named, word⟩ starts ends
  refine ⟨front, t, after, rfl, ?_, word, ?_⟩
  · obtain rfl | ⟨front, c, rfl⟩ := List.eq_nil_or_concat' front
    · exact .inl rfl
    · rw [solid_append_singleton (last c List.getLast?_concat)] at starts
      obtain nil | ⟨front', comma, same, isComma, depth⟩ := starts
      · exact absurd nil (List.append_ne_nil_of_right_ne_nil _ (List.cons_ne_nil _ _))
      · obtain ⟨rfl, one⟩ := List.append_inj' same rfl
        obtain rfl := List.singleton_inj.mp one
        exact .inr ⟨front, c, rfl, isComma, (depthOf_solid front).symm.trans depth⟩
  · have same : (Rust.solid after).head? = after.head? := head?_solid next
    rw [EndsKey, ← same]
    exact ends

/-! ### Gaps and literals -/

theorem depthOf_map_bare (ts : List Token) : depthOf (ts.map Token.bare) = depthOf ts := by
  have same (t : Token) : t.bare.depth = t.depth := by
    obtain ⟨gap, kind, text⟩ := t
    cases kind <;> rfl
  induction ts with
  | nil => rfl
  | cons t ts ih => rw [List.map_cons, depthOf, depthOf, same, ih]

theorem endsKey_bare (t : Token) : t.bare.endsKey = t.endsKey := by
  rw [Token.endsKey, Token.endsKey, isSymbol_bare, isSymbol_bare, isSymbol_bare]

/-- What an argument list declares depends neither on its gaps nor on its literals. -/
theorem declares_map_bare_iff (name : String) (body : List Token) :
    Declares name (body.map Token.bare) ↔ Declares name body := by
  constructor
  · rintro ⟨before', t', after', text, starts, word, ends⟩
    obtain ⟨before, ys, rfl, rfl, behind⟩ := List.map_eq_append_iff.mp text
    obtain ⟨t, after, rfl, rfl, rfl⟩ := List.map_eq_cons_iff.mp behind
    rw [isWord_bare] at word
    refine ⟨before, t, after, rfl, ?_, word, ?_⟩
    · obtain nil | ⟨front', comma', split, isComma, depth⟩ := starts
      · exact .inl (List.map_eq_nil_iff.mp nil)
      · obtain ⟨front, one, rfl, rfl, last⟩ := List.map_eq_append_iff.mp split
        obtain ⟨comma, rfl, rfl⟩ := List.map_eq_singleton_iff.mp last
        rw [isSymbol_bare] at isComma
        exact .inr ⟨front, comma, rfl, isComma, (depthOf_map_bare front).symm.trans depth⟩
    · intro u hu
      rw [← endsKey_bare]
      exact ends u.bare (by rw [List.head?_map, Option.mem_def.mp hu]; rfl)
  · rintro ⟨before, t, after, rfl, starts, word, ends⟩
    refine ⟨before.map Token.bare, t.bare, after.map Token.bare, ?_, ?_, ?_, ?_⟩
    · rw [List.map_append, List.map_cons]
    · obtain rfl | ⟨front, comma, rfl, isComma, depth⟩ := starts
      · exact .inl rfl
      · refine .inr ⟨front.map Token.bare, comma.bare, List.map_append, ?_, ?_⟩
        · rw [isSymbol_bare, isComma]
        · rw [depthOf_map_bare, depth]
    · rw [isWord_bare, word]
    · intro u hu
      rw [List.head?_map] at hu
      obtain ⟨v, hv, rfl⟩ := Option.map_eq_some_iff.mp hu
      rw [endsKey_bare]
      exact ends v hv

end AnchorHarness.Rust
