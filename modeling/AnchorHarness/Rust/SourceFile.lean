import AnchorHarness.Rust.MacroCall

/-!
# Source files

A file is kept as the items on its top level and as the calls of macros anywhere in it.
-/

namespace AnchorHarness.Rust

/-- A parsed Rust file. -/
structure SourceFile where
  items : List (Sibling Item)
  code : List Code

/-- Drops a first line that begins with `#!` and is no attribute. -/
def dropInterpreterLine (cs : List Char) : List Char :=
  match cs with
  | '#' :: '!' :: rest =>
    let blank (c : Char) := c = ' ' || c = '\t' || c = '\r' || c.toNat == 0x0B || c.toNat == 0x0C
    match rest.dropWhile blank with
    | '[' :: _ => cs
    | others => others.dropWhile (· != '\n')
  | _ => cs

/-- Drops a byte order mark in front. -/
def dropByteOrderMark (cs : List Char) : List Char :=
  match cs with
  | c :: rest => if c.toNat == 0xFEFF then rest else cs
  | [] => []

def SourceFile.parse (text : String) : SourceFile :=
  let trees := treesOfText (dropInterpreterLine (dropByteOrderMark text.toList))
  ⟨itemsOfTrees trees, codeOfTrees trees⟩

end AnchorHarness.Rust
