import AnchorHarness.Text.Blank

/-!
# Attributes

The text of an attribute, which stands between `#[` and `]`, has a path and may have arguments in
parentheses. The arguments are cut at the commas outside every bracket; the cut looks at characters
only, so brackets in comments or quotes count.
-/

namespace AnchorHarness.Rust

/-- The path of an attribute: what stands before the first parenthesis, equals sign or blank. -/
def attributePath (text : String) : String :=
  String.ofList (text.toList.takeWhile fun c => !(c = '(' || c = '=' || Text.isBlank c))

def depthChange (c : Char) : Int :=
  if c = '(' || c = '[' || c = '\x7b' then 1
  else if c = ')' || c = ']' || c = '\x7d' then -1
  else 0

/-- The arguments in what is left of an argument list, at a depth of nesting and with the part of
the current argument read so far. An argument behind the last comma counts only if it is not
blank. -/
def cutArguments (depth : Int) (current : List Char) : List Char → List (List Char)
  | [] => if (Text.trim current).isEmpty then [] else [Text.trim current]
  | c :: cs =>
    let depth := depth + depthChange c
    if c = ',' ∧ depth = 0 then Text.trim current :: cutArguments depth [] cs
    else cutArguments depth (current ++ [c]) cs

/-- The text between the first opening parenthesis and a closing one at the very end. -/
def argumentText? (cs : List Char) : Option (List Char) :=
  match cs.dropWhile (· != '(') with
  | [] => none
  | _ :: rest =>
    match cs.getLast? with
    | some ')' => some rest.dropLast
    | _ => none

def attributeArguments (text : String) : List String :=
  match argumentText? text.toList with
  | none => []
  | some body => (cutArguments 0 [] body).map String.ofList

end AnchorHarness.Rust
