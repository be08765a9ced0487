import AnchorHarness.Text.Cut

/-!
# Line breaks

A text file may end its lines with a line feed, a carriage return, or both in this order. Reading
turns each of them into a line feed, so that no carriage return is left.
-/

namespace AnchorHarness.Text

def unifyNewlines : List Char → List Char
  | [] => []
  | '\r' :: '\n' :: cs => '\n' :: unifyNewlines cs
  | c :: cs => (if c = '\r' then '\n' else c) :: unifyNewlines cs

def lines (s : String) : List (List Char) := cutAll (· = '\n') (unifyNewlines s.toList)

end AnchorHarness.Text
