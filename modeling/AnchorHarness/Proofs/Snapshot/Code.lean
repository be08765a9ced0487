import AnchorHarness.Snapshot.Module

/-!
# The code that fills a snapshot

The code that fills a struct as a sequence of commands over expressions, with one constructor for
each form of expression that occurs in it: the cursor, method calls with and without a closure,
early leaving by `?`, conditionals and matches. `fillingLines_eq` says that the text of a filling is
this code written out, so that a meaning for the expressions is one for the text.
-/

namespace AnchorHarness.Snapshot

open Text (indent block indented endStatement)

/-! ### Lines -/

def spliced : List String → List String → List String
  | [], after => after
  | [line], [] => [line]
  | [line], next :: after => (line ++ next) :: after
  | line :: lines, after => line :: spliced lines after

theorem spliced_append_cons (lines tail after : List String) (line : String) :
    spliced (lines ++ line :: tail) after = lines ++ spliced (line :: tail) after := by
  induction lines with
  | nil => rfl
  | cons first lines ih =>
    rw [List.cons_append, List.cons_append, ← ih]
    cases lines <;> rfl

def deeper (lines : List String) : List String := lines.map (indent ++ ·)

theorem endStatement_eq_spliced (line : String) (lines : List String) :
    endStatement (line :: lines) = spliced (line :: lines) [";"] := by
  induction lines generalizing line with
  | nil => rfl
  | cons second lines ih =>
    rw [endStatement, ih]
    · rfl
    · simp

/-! ### Expressions -/

/-- An expression of the code that fills a snapshot. -/
inductive Expression where
  | cursor
  | variable (name : String)
  | constant (path : String)
  | fault (e : SlotFault)
  | absent
  | success (e : Expression)
  | failure (e : Expression)
  | key (account : Expression)
  | differ (a b : Expression)
  | call (path : String) (argument : Expression)
  | choose (condition yes no : Expression)
  /-- A match on a fault: one arm for a kind of fault, and one that binds any other. -/
  | matchFault (e : Expression) (kind : FaultKind) (thisKind : Expression) (name : String)
    (other : Expression)
  | braces (e : Expression)
  | next (receiver : Expression)
  | asRef (receiver : Expression)
  | okOr (receiver error : Expression)
  | transpose (receiver : Expression)
  /-- `?` behind an expression. -/
  | leaveOnError (e : Expression)
  /-- `map` with a function given by its path. -/
  | mapPath (receiver : Expression) (path : String)
  | map (receiver : Expression) (parameter : String) (body : Expression)
  | filter (receiver : Expression) (parameter : String) (body : Expression)
  | mapErr (receiver : Expression) (parameter : String) (body : Expression)
  | orElse (receiver : Expression) (parameter : String) (body : Expression)

/-- The lines of a method call: the call goes on a line of its own below its receiver. -/
def callLines (receiver : List String) (method : String) (argument : List String) : List String :=
  receiver ++ deeper (spliced (spliced ["." ++ method ++ "("] argument) [")"])

def closureLines (parameter : String) (body : List String) : List String :=
  spliced ["|" ++ parameter ++ "| "] body

def Expression.lines : Expression → List String
  | .cursor => ["accounts_iter"]
  | .variable name => [name]
  | .constant path => [path]
  | .fault e => [e.text]
  | .absent => ["None"]
  | .success e => spliced (spliced ["Ok("] e.lines) [")"]
  | .failure e => spliced (spliced ["Err("] e.lines) [")"]
  | .key account => spliced account.lines [".key()"]
  | .differ a b => spliced (spliced a.lines [" != "]) b.lines
  | .call path argument => spliced (spliced [path ++ "("] argument.lines) [")"]
  | .choose condition yes no =>
    spliced (spliced ["if "] condition.lines) [" \x7b"] ++ deeper yes.lines ++
      ["\x7d else \x7b"] ++ deeper no.lines ++ ["\x7d"]
  | .matchFault e kind thisKind name other =>
    spliced (spliced ["match "] e.lines) [" \x7b"] ++
      deeper (spliced (spliced ["FuzzingError::" ++ kind.label ++ "(_) => "] thisKind.lines) [","]) ++
      deeper (spliced (spliced [name ++ " => "] other.lines) [","]) ++ ["\x7d"]
  | .braces e => ["\x7b"] ++ deeper e.lines ++ ["\x7d"]
  | .next receiver => callLines receiver.lines "next" []
  | .asRef receiver => callLines receiver.lines "as_ref" []
  | .okOr receiver error => callLines receiver.lines "ok_or" error.lines
  | .transpose receiver => callLines receiver.lines "transpose" []
  | .leaveOnError e => spliced e.lines ["?"]
  | .mapPath receiver path => callLines receiver.lines "map" [path]
  | .map receiver parameter body =>
    callLines receiver.lines "map" (closureLines parameter body.lines)
  | .filter receiver parameter body =>
    callLines receiver.lines "filter" (closureLines parameter body.lines)
  | .mapErr receiver parameter body =>
    callLines receiver.lines "map_err" (closureLines parameter body.lines)
  | .orElse receiver parameter body =>
    callLines receiver.lines "or_else" (closureLines parameter body.lines)

/-! ### Chains as expressions -/

/-- The account of a closure stands for something else than "not provided". -/
def provided (sentinel : String) : Expression :=
  .differ (.key (.variable "acc")) (.constant sentinel)

/-- A call of a chain, applied to what stands before it. -/
def Link.onto (sentinel : String) (e : Expression) : Link → Expression
  | .next => .next e
  | .orFault fault => .leaveOnError (.okOr e (.fault fault))
  | .asRef => .asRef e
  | .dropSentinel => .filter e "acc" (provided sentinel)
  | .apply method => .mapPath e method
  | .failWith fault => .leaveOnError (.mapErr e "_" (.fault fault))
  | .applyProvided method failed missing =>
    .map e "acc" (.braces (.choose (provided sentinel)
      (.mapErr (.call method (.variable "acc")) "_" (.fault failed)) (.failure (.fault missing))))
  | .transpose => .transpose e
  | .forgiveMissing =>
    .leaveOnError (.orElse e "e" (.matchFault (.variable "e") .optionalAccountNotProvided
      (.success .absent) "e" (.failure (.variable "e"))))

def chain (sentinel : String) (links : List Link) : Expression :=
  links.foldl (Link.onto sentinel) .cursor

/-- A call adds its own lines below those of what it is applied to. -/
theorem lines_onto (sentinel : String) (e : Expression) (l : Link) :
    (l.onto sentinel e).lines = e.lines ++ (l.lines sentinel).map (indent ++ ·) := by
  -- Leaning to the left merges the literals in front, leaning to the right those behind.
  cases l <;>
    simp [Link.onto, Link.lines, Expression.lines, callLines, closureLines, deeper, provided,
      spliced, spliced_append_cons, ← String.append_assoc] <;>
    simp [String.append_assoc]

theorem lines_chain (sentinel : String) (links : List Link) :
    (chain sentinel links).lines =
      "accounts_iter" :: (links.flatMap (Link.lines sentinel)).map (indent ++ ·) := by
  have from_any (e : Expression) :
      (links.foldl (Link.onto sentinel) e).lines =
        e.lines ++ (links.flatMap (Link.lines sentinel)).map (indent ++ ·) := by
    induction links generalizing e with
    | nil => simp
    | cons l links ih =>
      rw [List.foldl_cons, ih, lines_onto, List.flatMap_cons, List.map_append, List.append_assoc]
  exact from_any .cursor

/-! ### Commands -/

/-- A command of the code that fills a struct. -/
inductive Command where
  /-- Opens the cursor over the slots. -/
  | openCursor
  | bind (field : String) (declared : Option String) (value : Expression)
  /-- Binds a field whose value is to be written by hand. -/
  | bindTodo (field : String)
  /-- The struct from the fields bound before. -/
  | build (fields : List String)
  | buildEmpty

/-- A command written out, with an empty line behind it unless it is the last one. -/
def Command.lines : Command → List String
  | .openCursor => ["let mut accounts_iter = accounts.iter();", ""]
  | .bind field declared value =>
    let type := match declared with
      | some t => ": " ++ t
      | none => ""
    spliced (spliced ["let " ++ field ++ type ++ " = "] value.lines) [";"] ++ [""]
  | .bindTodo field => ["let " ++ field ++ " = todo!();", ""]
  | .build fields => ["Ok(Self \x7b"] ++ fields.map (fun name => indent ++ name ++ ",") ++ ["\x7d)"]
  | .buildEmpty => ["Ok(Self \x7b", indent ++ "_marker: " ++ phantom ++ ",", "\x7d)"]

def Statement.command (sentinel : String) : Statement → Command
  | .todo field => .bindTodo field
  | .bind field declared links => .bind field declared (chain sentinel links)

theorem lines_command (sentinel : String) (s : Statement) :
    (s.command sentinel).lines = s.lines sentinel ++ [""] := by
  cases s with
  | todo field => rfl
  | bind field declared links =>
    have opening (start : String) :
        start ++ " = " ++ "accounts_iter" = start ++ " = accounts_iter" := by
      simp [String.append_assoc]
    cases declared <;>
      simp only [Statement.command, Command.lines, Statement.lines, lines_chain, spliced,
        endStatement_eq_spliced, opening]

def fillingCode (config : Config) (s : Struct) : List Command :=
  (if s.slots = 0 then [] else [.openCursor]) ++
    s.plan.map (fun step => (statementFor step).command config.programIdConst) ++
    [if s.fields.isEmpty then .buildEmpty else .build (s.fields.map (·.1))]

/-- The lines of a function that fills the struct of a name. -/
def functionLines (name : String) (code : List Command) : List String :=
  [ "impl<'info> " ++ name ++ "<'info> \x7b",
    indent ++ "pub fn deserialize_option(",
    indent ++ indent ++ "accounts: &'info mut [Option<AccountInfo<'info>>],",
    indent ++ ") -> core::result::Result<Self, FuzzingError> \x7b" ] ++
  block (block (code.flatMap Command.lines)) ++
  [indent ++ "\x7d", "\x7d"]

/-- The text that fills a struct is its code written out. -/
theorem fillingLines_eq (config : Config) (s : Struct) :
    fillingLines config s = functionLines s.name (fillingCode config s) := by
  have bindings : bindingLines config s =
      (s.plan.map fun step => (statementFor step).command config.programIdConst).flatMap
        Command.lines := by
    rw [bindingLines, List.flatMap_map]
    simp only [lines_command]
  have result : resultLines s =
      Command.lines (if s.fields.isEmpty then .buildEmpty else .build (s.fields.map (·.1))) := by
    unfold resultLines
    by_cases h : s.fields.isEmpty = true
    · simp [h, Command.lines]
    · simp [h, Command.lines]
  have cursor : (if s.slots = 0 then [] else ["let mut accounts_iter = accounts.iter();", ""]) =
      (if s.slots = 0 then [] else [Command.openCursor]).flatMap Command.lines := by
    split <;> rfl
  simp only [fillingLines, functionLines, fillingCode, List.flatMap_append, bindings, result, cursor,
    List.flatMap_singleton]

end AnchorHarness.Snapshot
