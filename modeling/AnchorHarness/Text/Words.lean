import AnchorHarness.Text.Cut

/-!
# Words of an identifier

An identifier in snake, kebab or camel case is read as a list of lower-case words. Two passes put
an underscore at the borders that capitals mark, and the marked text is cut at every character that
is neither a letter nor a digit of ASCII. Only ASCII letters have a case here.
-/

namespace AnchorHarness.Text

def isUpper (c : Char) : Bool := 'A' ≤ c && c ≤ 'Z'

def isLower (c : Char) : Bool := 'a' ≤ c && c ≤ 'z'

def isDigit (c : Char) : Bool := '0' ≤ c && c ≤ '9'

def isWordCharacter (c : Char) : Bool := isUpper c || isLower c || isDigit c

/-! ### Borders -/

/-- Puts an underscore before the last of two or more characters. -/
def markLast : List Char → List Char
  | [] => []
  | [c] => [c]
  | [c, d] => [c, '_', d]
  | c :: rest => c :: markLast rest

/-- Sets the last capital of each run of two or more apart when a small letter follows the run:
`HTTPServer` becomes `HTTP_Server`. -/
def markAcronyms : List Char → List Char
  | [] => []
  | c :: cs =>
    if isUpper c then
      let run := c :: cs.takeWhile isUpper
      match _h : cs.dropWhile isUpper with
      | [] => run
      | d :: rest => (if isLower d then markLast run else run) ++ d :: markAcronyms rest
    else c :: markAcronyms cs
termination_by cs => cs.length
decreasing_by
  · have hs := congrArg List.length (List.takeWhile_append_dropWhile (p := isUpper) (l := cs))
    simp only [List.length_append, List.length_cons, *] at hs ⊢
    omega
  · simp

/-- Sets a capital apart from a small letter or digit before it: `doThing` becomes `do_Thing`. -/
def markCapitals : List Char → List Char
  | [] => []
  | [c] => [c]
  | c :: d :: rest =>
    if (isLower c || isDigit c) && isUpper d then c :: '_' :: markCapitals (d :: rest)
    else c :: markCapitals (d :: rest)

/-! ### Words -/

/-- The words of an identifier, in lower case. -/
def splitWords (cs : List Char) : List (List Char) :=
  let pieces := cutAll (fun c => !isWordCharacter c) (markCapitals (markAcronyms cs))
  (pieces.filter fun piece => !piece.isEmpty).map fun piece => piece.map Char.toLower

def capitalized : List Char → List Char
  | [] => []
  | c :: cs => c.toUpper :: cs

def words (s : String) : List String := (splitWords s.toList).map String.ofList

/-- `do_thing` for `doThing`. -/
def snakeCase (s : String) : String :=
  String.ofList (['_'].intercalate (splitWords s.toList))

/-- `DoThing` for `do_thing`. -/
def upperCamelCase (s : String) : String :=
  String.ofList ((splitWords s.toList).map capitalized).flatten

end AnchorHarness.Text
