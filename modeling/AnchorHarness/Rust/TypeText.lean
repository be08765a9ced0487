import AnchorHarness.Text.Blank

/-!
# One spelling for a type

A type may be written with any spacing: `Account < 'info , T >` and `Account<'info,T>` are one type.
The canonical spelling has no blank at its ends, none beside `::`, `<`, `>` or `,` but one after
each comma, and a single space for every other run of blanks.
-/

namespace AnchorHarness.Rust

/-- What stands between the text written so far and the next character. -/
inductive Spacing where
  /-- Blanks are dropped: the text just began, or ended in a tight sign. -/
  | tight
  /-- No blank has been read since the last character. -/
  | joined
  | apart
  deriving DecidableEq, Repr

/-- The signs that take no blanks around them, as single characters. -/
def isTightSign (c : Char) : Bool := c == '<' || c == '>' || c == ','

/-- The space owed before the next character that is no tight sign. -/
def Spacing.owed : Spacing → List Char
  | .apart => [' ']
  | _ => []

/-- The spacing after one more blank. -/
def Spacing.widen : Spacing → Spacing
  | .tight => .tight
  | _ => .apart

def respace : Spacing → List Char → List Char
  | _, [] => []
  | _, ':' :: ':' :: cs => ':' :: ':' :: respace .tight cs
  | s, c :: cs =>
    if Text.isBlank c then respace s.widen cs
    else if c = ',' then ',' :: ' ' :: respace .tight cs
    else if isTightSign c then c :: respace .tight cs
    else s.owed ++ c :: respace .joined cs

def canonicalType (cs : List Char) : List Char := respace .tight cs

def normalizeType (s : String) : String := String.ofList (canonicalType s.toList)

end AnchorHarness.Rust
