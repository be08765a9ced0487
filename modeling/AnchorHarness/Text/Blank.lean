/-!
# Blanks

The characters that count as blank in a source text, and their removal at the two ends of a text.
The set is the one of Unicode's white space together with the four information separators; the
zero-width space and the byte order mark are not in it.
-/

namespace AnchorHarness.Text

/-- Blank characters: white space of Unicode and the separators U+001C to U+001F. -/
def isBlank (c : Char) : Bool :=
  let n := c.toNat
  (0x09 ≤ n && n ≤ 0x0D) || (0x1C ≤ n && n ≤ 0x20) || n == 0x85 || n == 0xA0 || n == 0x1680 ||
    (0x2000 ≤ n && n ≤ 0x200A) || n == 0x2028 || n == 0x2029 || n == 0x202F || n == 0x205F ||
    n == 0x3000

/-! ### Trimming -/

def trimStart (cs : List Char) : List Char := cs.dropWhile isBlank

/-- Drops the blanks behind: a blank is kept only if something is kept after it. -/
def trimEnd (cs : List Char) : List Char :=
  cs.foldr (fun c kept => if kept.isEmpty && isBlank c then [] else c :: kept) []

def trim (cs : List Char) : List Char := trimEnd (trimStart cs)

theorem trimEnd_cons (c : Char) (cs : List Char) :
    trimEnd (c :: cs) = if (trimEnd cs).isEmpty && isBlank c then [] else c :: trimEnd cs := rfl

/-- A text without its blanks at both ends. -/
def trimmed (s : String) : String := String.ofList (trim s.toList)

end AnchorHarness.Text
