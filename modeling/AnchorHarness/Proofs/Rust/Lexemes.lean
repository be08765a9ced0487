import AnchorHarness.Proofs.Rust.Lexing

/-!
# One token in the canonical spelling

The token in front of a text stands, in its own spelling, in front of the canonical spelling of the
text, if no meaning is lost there: a line comment would lose its end, a quote that opens nothing and
a comma in quotes would be read otherwise, and signs apart could become one.
-/

namespace AnchorHarness.Rust

open Text (isBlank)

/-! ### Spelled tokens -/

/-- What the spelling of a token leaves to the gap behind it. -/
structure Carry where
  gap : List Char
  spacing : Spacing

def Token.carry (t : Token) : Carry :=
  ⟨if t.isSymbol "," then [' '] else [], Spacing.tight.after t.text⟩

/-- The text of a token in the canonical spelling; the space behind a comma is no part of it. -/
def Token.spelled (t : Token) : List Char :=
  if t.kind.isPlain then t.text else canonicalType t.text

/-! ### One token -/

/-- The token in front of a text, the front of the text behind its first character, and that front
in the canonical spelling of the text. -/
structure Reads (t : Token) (c : Char) (front spelled rest : List Char) : Prop where
  text : t.text = c :: front
  here : lexeme c (front ++ rest) = (t.kind, front.length)
  spells : t.spelled = c :: spelled
  canonical : canonicalType t.text = t.spelled ++ t.carry.gap
  there : lexeme c (spelled ++ (t.carry.gap ++ respace t.carry.spacing rest)) =
    (t.kind, spelled.length)
  cut : endsInColon t.text = true → rest.head? ≠ some ':'
  marked : t.kind.isPlain = false → ∃ m ∈ t.text, isMark m = true

theorem Lexes.reads {c : Char} {g front rest : List Char} {kind : TokenKind}
    (h : Lexes (lexeme c) kind front rest) (inert : IsInert c)
    (marked : kind.isPlain = false → ∃ m ∈ c :: front, isMark m = true) :
    Reads ⟨g, kind, c :: front⟩ c front (respace .joined front) rest := by
  have canonical : canonicalType (c :: front) = c :: respace .joined front :=
    respace_inert inert
  have spells : Token.spelled ⟨g, kind, c :: front⟩ = c :: respace .joined front := by
    unfold Token.spelled
    split_ifs with hk
    · rw [h.plain hk]
    · exact canonical
  have gap : (Token.carry ⟨g, kind, c :: front⟩).gap = [] := by
    have other : c ≠ ',' := by
      rintro rfl
      exact absurd inert (by decide)
    simp [Token.carry, Token.isSymbol, other]
  refine ⟨rfl, h.here, spells, ?_, ?_, ?_, marked⟩
  · rw [spells, gap, List.append_nil]
    exact canonical
  · have after : (Token.carry ⟨g, kind, c :: front⟩).spacing = Spacing.joined.after front :=
      after_inert inert
    rw [gap, after, List.nil_append, ← respace_append _ _ _ h.cut]
    exact h.there
  · show endsInColon (c :: front) = true → _
    rw [endsInColon_cons inert.2.2]
    exact h.cut

/-! ### Tokens that begin with an inert character -/

theorem lexes_nil {g : List Char → TokenKind × Nat} {r : List Char} (here : g r = (.symbol, 0))
    (there : g (respace .joined r) = (.symbol, 0)) : Lexes g .symbol [] r :=
  ⟨here, there, (fun h => by cases h), fun _ => rfl⟩

theorem lexeme_slash {r : List Char} (line : r.head? ≠ some '/') (block : r.head? ≠ some '*') :
    lexeme '/' r = (.symbol, 0) := by
  unfold lexeme
  split
  · exact absurd rfl line
  · exact absurd rfl block
  all_goals first | rfl | (exfalso; contradiction)

theorem lexeme_arrow {c : Char} (hc : c = '-' ∨ c = '=') {r : List Char}
    (h : r.head? ≠ some '>') : lexeme c r = (.symbol, 0) := by
  rcases hc with rfl | rfl
  all_goals
    unfold lexeme
    split
    all_goals first | exact absurd rfl h | rfl | contradiction

theorem lexeme_plain {c : Char} (h : c ∉ ['/', '"', '\'', ':', '-', '=']) (r : List Char) :
    lexeme c r =
      if isDigit c then afterDigit r
      else if isNameCharacter c then afterLetter c r
      else (.symbol, 0) := by
  unfold lexeme
  split
  all_goals first | rfl | exact absurd (by decide) h

theorem exists_lexes_slash {r : List Char} (line : r.head? ≠ some '/') :
    ∃ front rest, r = front ++ rest ∧ Lexes (lexeme '/') (lexeme '/' r).1 front rest := by
  by_cases block : r.head? = some '*'
  · obtain ⟨r, rfl⟩ := List.head?_eq_some_iff.mp block
    obtain ⟨front, rest, rfl, scans⟩ := respaces_blockLength 0 .joined r
    exact ⟨_, _, rfl, scans.lexes rfl ['*'] (List.all_iff_forall_prop.mp rfl) fun _ _ => rfl⟩
  · have here := lexeme_slash line block
    have there : lexeme '/' (respace .joined r) = (.symbol, 0) :=
      lexeme_slash (fun h => line ((head?_respace (by decide) r).mp h))
        fun h => block ((head?_respace (by decide) r).mp h)
    rw [here]
    exact ⟨[], r, rfl, lexes_nil here there⟩

theorem exists_lexes_arrow {c : Char} (hc : c = '-' ∨ c = '=') {r : List Char}
    (apart : (respace .joined r).head? = some '>' → r.head? = some '>') :
    ∃ front rest, r = front ++ rest ∧ Lexes (lexeme c) (lexeme c r).1 front rest ∧
      (lexeme c r).1 = .symbol := by
  by_cases arrow : r.head? = some '>'
  · obtain ⟨r, rfl⟩ := List.head?_eq_some_iff.mp arrow
    have read (cs : List Char) : lexeme c ('>' :: cs) = (.symbol, 1) := by
      rcases hc with rfl | rfl <;> rfl
    rw [read]
    exact ⟨['>'], r, rfl, ⟨read r, read _, (fun h => by cases h), fun _ => rfl⟩, rfl⟩
  · have here := lexeme_arrow hc arrow
    have there := lexeme_arrow hc fun head => arrow (apart head)
    rw [here]
    exact ⟨[], r, rfl, lexes_nil here there, rfl⟩

theorem kind_afterDigit (r : List Char) : (afterDigit r).1 = .number := by
  unfold afterDigit
  dsimp only
  split
  · split
    · split_ifs <;> rfl
    · rfl
  · rfl

theorem exists_lexes_afterDigit (r : List Char) :
    ∃ front rest, r = front ++ rest ∧ Lexes afterDigit .number front rest := by
  obtain ⟨p, x, rfl, inert, loose⟩ := exists_inert_append_loose r
  have read (y : List Char) (hy : Loose y) : afterDigit (p ++ y) = (.number, (afterDigit p).2) := by
    rw [afterDigit_append p hy, ← kind_afterDigit p]
  refine ⟨_, _, ?_, lexes_of_inert inert loose (afterDigit_le p) read⟩
  rw [← List.append_assoc, List.take_append_drop]

/-- Every token that begins with an inert character, but for line comments, stray quotes and commas
in quotes. -/
theorem exists_lexes {c : Char} (inert : IsInert c) {r : List Char}
    (line : c = '/' → r.head? ≠ some '/') (quote : c = '\'' → (lexeme c r).1 ≠ .symbol)
    (comma : (lexeme c r).1 = .character → ',' ∉ r.take (lexeme c r).2)
    (arrow : c = '-' ∨ c = '=' → (respace .joined r).head? = some '>' → r.head? = some '>') :
    ∃ front rest, r = front ++ rest ∧ Lexes (lexeme c) (lexeme c r).1 front rest ∧
      ((lexeme c r).1.isPlain = false → ∃ m ∈ c :: front, isMark m = true) := by
  by_cases slash : c = '/'
  · subst slash
    obtain ⟨front, rest, he, lexes⟩ := exists_lexes_slash (line rfl)
    exact ⟨front, rest, he, lexes, fun _ => ⟨'/', List.mem_cons_self .., rfl⟩⟩
  by_cases text : c = '"'
  · subst text
    obtain ⟨front, rest, rfl, scans⟩ :=
      @respaces_quotedLength '"' (by decide) (by decide) .joined r
    refine ⟨front, rest, rfl, scans.lexes rfl [] (by simp) fun cs _ => ?_,
      fun _ => ⟨'"', List.mem_cons_self .., rfl⟩⟩
    exact congrArg (TokenKind.text, ·) (Nat.zero_add _).symm
  by_cases single : c = '\''
  · subst single
    obtain ⟨front, rest, he, lexes⟩ := exists_lexes_afterQuote (quote rfl) comma
    exact ⟨front, rest, he, lexes, fun _ => ⟨'\'', List.mem_cons_self .., rfl⟩⟩
  by_cases sign : c = '-' ∨ c = '='
  · obtain ⟨front, rest, he, lexes, symbol⟩ := exists_lexes_arrow sign (arrow sign)
    refine ⟨front, rest, he, lexes, fun content => ?_⟩
    rw [symbol] at content
    cases content
  have plain : c ∉ ['/', '"', '\'', ':', '-', '='] := by
    simp only [List.mem_cons, List.not_mem_nil, or_false, not_or]
    exact ⟨slash, text, single, inert.2.2, fun h => sign (.inl h), fun h => sign (.inr h)⟩
  have same := funext (lexeme_plain plain)
  rw [same]
  by_cases digit : isDigit c = true
  · simp only [digit, if_true]
    obtain ⟨front, rest, rfl, lexes⟩ := exists_lexes_afterDigit r
    rw [kind_afterDigit]
    exact ⟨front, rest, rfl, lexes, fun content => by cases content⟩
  · by_cases name : isNameCharacter c = true
    · simp only [digit, name, if_true, if_false, Bool.false_eq_true]
      obtain ⟨front, rest, he, lexes, marked⟩ := exists_lexes_afterLetter c r
      refine ⟨front, rest, he, lexes, fun content => ?_⟩
      obtain ⟨m, hm, mark⟩ := marked content
      exact ⟨m, List.mem_cons_of_mem c hm, mark⟩
    · simp only [digit, name, if_false, Bool.false_eq_true]
      exact ⟨[], r, rfl, lexes_nil rfl rfl, fun content => by cases content⟩

/-! ### Tokens that begin with a sign -/

theorem lexeme_colon {r : List Char} (h : r.head? ≠ some ':') : lexeme ':' r = (.symbol, 0) := by
  unfold lexeme
  split
  all_goals first | exact absurd rfl h | rfl | contradiction

theorem lexeme_angle {c : Char} (hc : c = '<' ∨ c = '>') (r : List Char) :
    lexeme c r = (.symbol, 0) := by
  rcases hc with rfl | rfl <;> rfl

theorem reads_comma (g r : List Char) : Reads ⟨g, .symbol, [',']⟩ ',' [] [] r :=
  ⟨rfl, rfl, rfl, rfl, rfl, (fun h => by cases h), fun h => by cases h⟩

theorem reads_angle {c : Char} (hc : c = '<' ∨ c = '>') (g r : List Char) :
    Reads ⟨g, .symbol, [c]⟩ c [] [] r := by
  have read := lexeme_angle hc
  refine ⟨rfl, read r, rfl, ?_, read _, ?_, fun content => by cases content⟩
  · rcases hc with rfl | rfl <;> rfl
  · rcases hc with rfl | rfl <;> exact fun ends => by cases ends

theorem reads_colons (g r : List Char) : Reads ⟨g, .symbol, [':', ':']⟩ ':' [':'] [':'] r :=
  ⟨rfl, rfl, rfl, rfl, rfl, (fun h => by cases h), fun h => by cases h⟩

theorem reads_colon {r : List Char} (h : r.head? ≠ some ':')
    (apart : (respace .joined r).head? ≠ some ':') (g : List Char) :
    Reads ⟨g, .symbol, [':']⟩ ':' [] [] r :=
  ⟨rfl, lexeme_colon h, rfl, rfl, lexeme_colon apart, fun _ => h, fun content => by cases content⟩

theorem exists_reads {c : Char} {r : List Char} (hc : isGap c = false)
    (line : c = '/' → r.head? ≠ some '/') (quote : c = '\'' → (lexeme c r).1 ≠ .symbol)
    (comma : (lexeme c r).1 = .character → ',' ∉ r.take (lexeme c r).2)
    (arrow : c = '-' ∨ c = '=' → (respace .joined r).head? = some '>' → r.head? = some '>')
    (colon : c = ':' → (respace .joined r).head? = some ':' → r.head? = some ':')
    (g : List Char) :
    ∃ front spelled rest, r = front ++ rest ∧
      Reads ⟨g, (lexeme c r).1, c :: r.take (lexeme c r).2⟩ c front spelled rest := by
  have read {kind : TokenKind} {front spelled rest : List Char} (he : r = front ++ rest)
      (h : Reads ⟨g, kind, c :: front⟩ c front spelled rest) :
      ∃ front spelled rest, r = front ++ rest ∧
        Reads ⟨g, (lexeme c r).1, c :: r.take (lexeme c r).2⟩ c front spelled rest := by
    refine ⟨front, spelled, rest, he, ?_⟩
    rw [he, h.here, List.take_left]
    exact h
  obtain blank | rfl | angle | rfl | inert := character_cases c
  · simp [isGap, blank] at hc
  · exact read rfl (reads_comma g r)
  · exact read rfl (reads_angle angle g r)
  · by_cases pair : r.head? = some ':'
    · obtain ⟨r, rfl⟩ := List.head?_eq_some_iff.mp pair
      exact read rfl (reads_colons g r)
    · exact read rfl (reads_colon pair (fun head => pair (colon rfl head)) g)
  · obtain ⟨front, rest, he, lexes, marked⟩ := exists_lexes inert line quote comma arrow
    exact read he (lexes.reads inert marked)

end AnchorHarness.Rust
