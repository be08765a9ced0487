import AnchorHarness.Text.Quoted

/-!
# JSON documents

The values that a program description is made of, and their text: two spaces of indentation, every
member on a line of its own, and ASCII only, with other characters written by their UTF-16 units.
-/

namespace AnchorHarness

/-- A JSON value; the members of an object keep their order. -/
inductive Json where
  | null
  | boolean (value : Bool)
  | string (value : String)
  | array (elements : List Json)
  | object (members : List (String × Json))

namespace Json

/-- The string, or null if there is none. -/
def ofOption : Option String → Json
  | some s => .string s
  | none => .null

/-! ### Text -/

/-- A UTF-16 unit by its number. -/
def unit (n : Nat) : List Char := '\\' :: 'u' :: Text.hexDigits 4 n

def encodeChar (c : Char) : List Char :=
  let n := c.toNat
  if c = '"' ∨ c = '\\' then ['\\', c]
  else if c = '\n' then ['\\', 'n']
  else if c = '\r' then ['\\', 'r']
  else if c = '\t' then ['\\', 't']
  else if n = 8 then ['\\', 'b']
  else if n = 12 then ['\\', 'f']
  else if 0x20 ≤ n ∧ n < 0x7F then [c]
  else if n < 0x10000 then unit n
  else unit (0xD800 + (n - 0x10000) / 0x400) ++ unit (0xDC00 + (n - 0x10000) % 0x400)

def encodeString (s : String) : String :=
  String.ofList ('"' :: s.toList.flatMap encodeChar ++ ['"'])

def newline (depth : Nat) : String := "\n" ++ String.ofList (List.replicate (2 * depth) ' ')

def bracketed (opening closing : String) (depth : Nat) (entries : List String) : String :=
  if entries.isEmpty then opening ++ closing
  else
    opening ++ newline (depth + 1) ++ ("," ++ newline (depth + 1)).intercalate entries ++
      newline depth ++ closing

mutual
def render (depth : Nat) : Json → String
  | .null => "null"
  | .boolean value => if value then "true" else "false"
  | .string value => encodeString value
  | .array elements => bracketed "[" "]" depth (renderElements (depth + 1) elements)
  | .object members => bracketed "\x7b" "\x7d" depth (renderMembers (depth + 1) members)

def renderElements (depth : Nat) : List Json → List String
  | [] => []
  | v :: vs => render depth v :: renderElements depth vs

def renderMembers (depth : Nat) : List (String × Json) → List String
  | [] => []
  | (key, v) :: rest => (encodeString key ++ ": " ++ render depth v) :: renderMembers depth rest
end

def text (v : Json) : String := render 0 v

end Json

end AnchorHarness
