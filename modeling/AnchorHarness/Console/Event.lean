import AnchorHarness.Console.Markup

/-!
# What a run puts on the console

A run writes text to one of two channels, and it draws panels and tables, whose parts are kept
apart. A message in markup becomes one line of text or several. The parts of panels and tables are
markup as well, and one of them that is faulty keeps the whole from being drawn.
-/

namespace AnchorHarness.Console

/-- Where text goes. -/
inductive Channel where
  | out
  | err
  deriving DecidableEq, Repr

/-- Something put on the console. -/
inductive Event where
  | text (channel : Channel) (text : String)
  /-- A panel, with its content and title in markup. -/
  | panel (content title : String)
  | table (title : String) (columns : List String) (rows : List (List String))
  deriving DecidableEq, Repr

/-- The markup in an event, in the order in which it is rendered: that of a table column by column,
and its title last. -/
def Event.markups : Event → List String
  | .text .. => []
  | .panel content title => [title, content]
  | .table title columns rows =>
    (List.range columns.length).flatMap (fun i => (columns :: rows).filterMap (·[i]?)) ++ [title]

def fault? (markup : String) : Option MarkupFault :=
  match render markup with
  | .ok _ => none
  | .error fault => some fault

/-- Why an event cannot be put on the console: the first fault in its markup. -/
def Event.fault? (e : Event) : Option MarkupFault := e.markups.findSome? Console.fault?

def tabStop : Nat := 8

/-- Replaces tabs by spaces up to the next stop; `column` is the column of the first character. -/
def expandTabs (column : Nat) : List Char → List Char
  | [] => []
  | c :: cs =>
    if c = '\t' then
      let width := tabStop - column % tabStop
      List.replicate width ' ' ++ expandTabs (column + width) cs
    else c :: expandTabs (if c = '\n' then 0 else column + 1) cs

/-- The text that a message in markup is shown as. -/
def message (markup : String) : Except MarkupFault String :=
  (render markup).map fun s => String.ofList (expandTabs 0 s.toList) ++ "\n"

/-- The text on a channel, where the parts that are drawn are left out. -/
def textOn (channel : Channel) (events : List Event) : String :=
  String.join (events.filterMap fun e =>
    match e with
    | .text c s => if c = channel then some s else none
    | _ => none)

end AnchorHarness.Console
