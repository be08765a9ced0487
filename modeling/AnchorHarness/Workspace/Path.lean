import AnchorHarness.Text.Cut

/-!
# Paths

A path is a row of segments after an optional root. Reading a path tidies it: empty segments and
those that stay in place are dropped, while a segment that goes up is kept, since what it goes up
from need not be a directory. A path can also be read literally, with every segment kept.
-/

namespace AnchorHarness.Workspace

/-- A path. -/
structure Path where
  /-- The slashes in front; a path without any is relative. -/
  root : String
  segments : List String
  deriving DecidableEq, Repr

def stay : String := "."

def up : String := ".."

/-- The slashes in front of a text, and the segments behind them. -/
def splitRoot (text : String) : List Char × List String :=
  let cs := text.toList
  let segments := Text.cutAll (· = '/') (cs.dropWhile (· = '/'))
  (cs.takeWhile (· = '/'), segments.map String.ofList)

namespace Path

def literal (text : String) : Path :=
  let (slashes, segments) := splitRoot text
  ⟨String.ofList slashes, segments⟩

/-- The root that slashes in front stand for: two of them are a root of their own, and any other
number counts as one. -/
def tidyRoot (slashes : List Char) : String :=
  match slashes with
  | [] => ""
  | ['/', '/'] => "//"
  | _ => "/"

def isProper (segment : String) : Bool := !(segment.isEmpty || segment = stay)

/-- Reads a path, tidied. -/
def ofText (text : String) : Path :=
  let (slashes, segments) := splitRoot text
  ⟨tidyRoot slashes, segments.filter isProper⟩

def isAbsolute (p : Path) : Bool := !p.root.isEmpty

def text (p : Path) : String :=
  if p.root.isEmpty && p.segments.isEmpty then stay else p.root ++ "/".intercalate p.segments

/-- The path without its last segment. -/
def parent (p : Path) : Path := { p with segments := p.segments.dropLast }

def child (p : Path) (name : String) : Path := { p with segments := p.segments ++ [name] }

/-- The second path as seen from the first. -/
def join (p q : Path) : Path :=
  if q.isAbsolute then q else { p with segments := p.segments ++ q.segments }

theorem length_parent_lt (p : Path) (h : p.segments ≠ []) :
    p.parent.segments.length < p.segments.length := by
  have := List.length_pos_iff.2 h
  simp only [parent, List.length_dropLast]
  omega

end Path

end AnchorHarness.Workspace
