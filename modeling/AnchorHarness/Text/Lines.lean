/-!
# Lines of generated code

Generated code is built as a list of lines. A block of lines is moved to the right by whole steps,
where an empty line stays empty; the lines are joined last.
-/

namespace AnchorHarness.Text

def indent : String := "    "

/-- A line moved to the right by some text, unless it is empty. -/
def indented (margin line : String) : String := if line.isEmpty then "" else margin ++ line

def block (lines : List String) : List String := lines.map (indented indent)

/-- Puts a semicolon behind the last line. -/
def endStatement : List String → List String
  | [] => []
  | [line] => [line ++ ";"]
  | line :: lines => line :: endStatement lines

/-- Puts some text in front of the first line. -/
def beginWith (start : String) : List String → List String
  | [] => []
  | line :: lines => (start ++ line) :: lines

/-- Lines, each with its line break. -/
def unlines (lines : List String) : String := String.join (lines.map (· ++ "\n"))

theorem unlines_append (a b : List String) : unlines (a ++ b) = unlines a ++ unlines b := by
  simp [unlines]

end AnchorHarness.Text
