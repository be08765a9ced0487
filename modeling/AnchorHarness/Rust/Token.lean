import AnchorHarness.Text.Blank

/-!
# Tokens of Rust source

A source text is read as a list of tokens, each with the blanks that stand before it. Comments are
tokens too, so that the text between two tokens can always be given back. The lexer looks at one
character and says what kind of token begins there and how many of the following characters belong
to it; text and rest are then `take` and `drop`, so nothing is lost and the lexer always advances.
-/

namespace AnchorHarness.Rust

/-- The kinds of token. -/
inductive TokenKind where
  /-- A name or a keyword, with its `r#` if it has one. -/
  | word
  | lifetime
  | number
  | character
  /-- A string in quotes, of characters or bytes. -/
  | text
  | rawText
  | comment
  | symbol
  deriving DecidableEq, Repr

/-- A token and the blanks before it. -/
structure Token where
  gap : List Char
  kind : TokenKind
  text : List Char
  deriving DecidableEq, Repr

/-- Blanks between tokens; a byte order mark counts as one. -/
def isGap (c : Char) : Bool := Text.isBlank c || c.toNat == 0xFEFF

def isDigit (c : Char) : Bool := '0' ≤ c && c ≤ '9'

/-- Characters of names and numbers; outside ASCII, all but the blanks. -/
def isNameCharacter (c : Char) : Bool :=
  isDigit c || ('a' ≤ c && c ≤ 'z') || ('A' ≤ c && c ≤ 'Z') || c == '_' ||
    (0x80 ≤ c.toNat && !isGap c)

def nameLength (cs : List Char) : Nat := (cs.takeWhile isNameCharacter).length

/-! ### Lengths of the longer tokens

Each function is given the characters after the opening ones and says how many of them belong to
the token. -/

/-- A quoted text, to its closing quote; a backslash protects the character after it. -/
def quotedLength (quote : Char) : List Char → Nat
  | [] => 0
  | ['\\'] => 1
  | '\\' :: _ :: cs => quotedLength quote cs + 2
  | c :: cs => if c = quote then 1 else quotedLength quote cs + 1

/-- A raw text, to the quote that is followed by the given number of `#`. -/
def rawLength (hashes : Nat) : List Char → Nat
  | [] => 0
  | c :: cs =>
    if c = '"' ∧ cs.take hashes = List.replicate hashes '#' then hashes + 1
    else rawLength hashes cs + 1

/-- A block comment with the given number of further comments open inside. -/
def blockLength : Nat → List Char → Nat
  | _, [] => 0
  | depth, '/' :: '*' :: cs => blockLength (depth + 1) cs + 2
  | 0, '*' :: '/' :: _ => 2
  | depth + 1, '*' :: '/' :: cs => blockLength depth cs + 2
  | depth, _ :: cs => blockLength depth cs + 1

/-- A raw text after its `r`, if one begins there. -/
def rawTextLength? (cs : List Char) : Option Nat :=
  let hashes := (cs.takeWhile (· == '#')).length
  match cs.drop hashes with
  | '"' :: rest => some (hashes + 1 + rawLength hashes rest)
  | _ => none

/-! ### Lexemes -/

/-- After a single quote: a character literal or a lifetime. -/
def afterQuote (cs : List Char) : TokenKind × Nat :=
  match cs with
  | '\\' :: _ => (.character, quotedLength '\'' cs)
  | c :: '\'' :: _ => if c = '\'' then (.symbol, 0) else (.character, 2)
  | c :: _ => if isNameCharacter c then (.lifetime, nameLength cs) else (.symbol, 0)
  | [] => (.symbol, 0)

/-- The number of characters that belong to a decimal number from a digit on. Its exponent may have
a sign; a letter before the exponent makes the number another kind of one. -/
def decimalLength (cs : List Char) : Nat :=
  let digits := (cs.takeWhile fun c => isDigit c || c == '_').length
  match cs.drop digits with
  | e :: sign :: d :: rest =>
    if (e == 'e' || e == 'E') && (sign == '+' || sign == '-') && isDigit d then
      digits + 3 + nameLength rest
    else nameLength cs
  | _ => nameLength cs

/-- After a digit: the rest of the number, with its fraction if it has one. -/
def afterDigit (cs : List Char) : TokenKind × Nat :=
  let whole := decimalLength cs
  match cs.drop whole with
  | '.' :: rest =>
    match rest with
    | c :: _ =>
      if isDigit c then (.number, whole + 1 + decimalLength rest)
      else if c = '.' || isNameCharacter c then (.number, whole)
      else (.number, whole + 1)
    | [] => (.number, whole + 1)
  | _ => (.number, whole)

/-- After the letter `c` of a name, which may also open a literal or a raw name. -/
def afterLetter (c : Char) (cs : List Char) : TokenKind × Nat :=
  match c, cs with
  | 'b', '\'' :: rest => (.character, 1 + quotedLength '\'' rest)
  | 'b', '"' :: rest => (.text, 1 + quotedLength '"' rest)
  | 'c', '"' :: rest => (.text, 1 + quotedLength '"' rest)
  | 'b', 'r' :: rest => openRaw 1 rest
  | 'c', 'r' :: rest => openRaw 1 rest
  | 'r', rest => openRaw 0 rest
  | _, _ => (.word, nameLength cs)
where
  /-- After the `r` that may open a raw text or a raw name, `skip` characters into the token. -/
  openRaw (skip : Nat) (rest : List Char) : TokenKind × Nat :=
    match rawTextLength? rest with
    | some n => (.rawText, skip + n)
    | none =>
      match rest with
      | '#' :: name => if skip = 0 then (.word, 1 + nameLength name) else (.word, nameLength cs)
      | _ => (.word, nameLength cs)

/-- The kind of the token that begins with `c` and how many characters of `cs` belong to it. -/
def lexeme (c : Char) (cs : List Char) : TokenKind × Nat :=
  match c, cs with
  | '/', '/' :: _ => (.comment, (cs.takeWhile (· != '\n')).length)
  | '/', '*' :: rest => (.comment, 1 + blockLength 0 rest)
  | '"', _ => (.text, quotedLength '"' cs)
  | '\'', _ => afterQuote cs
  | ':', ':' :: _ => (.symbol, 1)
  | '-', '>' :: _ => (.symbol, 1)
  | '=', '>' :: _ => (.symbol, 1)
  | _, _ =>
    if isDigit c then afterDigit cs
    else if isNameCharacter c then afterLetter c cs
    else (.symbol, 0)

def tokenize (cs : List Char) : List Token :=
  match _h : cs.dropWhile isGap with
  | [] => []
  | c :: rest =>
    let (kind, n) := lexeme c rest
    ⟨cs.takeWhile isGap, kind, c :: rest.take n⟩ :: tokenize (rest.drop n)
termination_by cs.length
decreasing_by
  have hs := congrArg List.length (List.takeWhile_append_dropWhile (p := isGap) (l := cs))
  simp only [List.length_append, List.length_cons, List.length_drop, *] at hs ⊢
  omega

/-! ### Kinds of token -/

def Token.isWord (t : Token) (word : String) : Bool :=
  t.kind == .word && t.text == word.toList

def Token.isSymbol (t : Token) (symbol : String) : Bool :=
  t.kind == .symbol && t.text == symbol.toList

/-- The source text of tokens, from the first to the last, with the blanks between them. -/
def sourceText : List Token → List Char
  | [] => []
  | t :: ts => t.text ++ ts.flatMap fun u => u.gap ++ u.text

end AnchorHarness.Rust
