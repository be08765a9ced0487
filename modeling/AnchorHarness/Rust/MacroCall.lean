import AnchorHarness.Rust.Item.Reader

/-!
# Macro calls

Wherever code may call a macro, in items, statements, expressions, patterns and types, the call is a
path, an exclamation mark and a group. The group is the macro's own affair: calls inside it are not
calls of the program, and neither is anything in the definition of a macro or in the arguments of an
attribute. What is left is a tree of blocks and calls.
-/

namespace AnchorHarness.Rust

/-- A call of a macro, by the text of its path and its whole text. -/
structure MacroCall where
  name : String
  text : String
  deriving DecidableEq, Repr

/-- Code, as far as calls of macros go. -/
inductive Code where
  | call (call : MacroCall)
  | block (body : List Code)

/-! ### Recognition -/

/-- Words that no path ends in, so that a following `!` negates. -/
def reservedWords : List String :=
  ["as", "break", "const", "continue", "dyn", "else", "enum", "extern", "fn", "for", "if", "impl",
    "in", "let", "loop", "match", "mod", "move", "mut", "pub", "ref", "return", "static", "struct",
    "trait", "type", "unsafe", "use", "where", "while", "async", "await", "yield"]

/-- The number of trees in front that make up a path, given how many have been read, how many of
those a path can end with, and whether the last one was a word. Comments may stand between. -/
def pathLength (afterWord : Bool) (read best : Nat) : List Tree → Nat
  | [] => best
  | t :: ts =>
    if t.isComment then pathLength afterWord (read + 1) best ts
    else if afterWord then
      if t.isSymbol "::" then pathLength false (read + 1) best ts else best
    else if t.isKind .word && !reservedWords.any (t.isWord ·) then
      pathLength true (read + 1) (read + 1) ts
    else best

def commentLength (ts : List Tree) : Nat := (ts.takeWhile Tree.isComment).length

def isMacroGroup (t : Tree) : Bool :=
  t.isGroup .paren || t.isGroup .bracket || t.isGroup .brace

/-- A call or definition of a macro in front: the call, if it is one, and the number of trees. -/
def macroInFront? (ts : List Tree) : Option (Option MacroCall × Nat) :=
  let begins := (ts.head?.map fun t => t.isSymbol "::" || t.isKind .word).getD false
  let path := pathLength ((ts.head?.map (Tree.isSymbol "::")).getD false) 0 0 ts
  if !begins || path = 0 then none
  else
    let bang := path + commentLength (ts.drop path)
    match ts.drop bang with
    | t :: rest =>
      if !t.isSymbol "!" then none
      else
        let next := bang + 1 + commentLength rest
        match ts.drop next with
        | u :: others =>
          if isMacroGroup u then
            some (some ⟨String.ofList (textOfTrees (ts.take path)),
              String.ofList (textOfTrees (ts.take (next + 1)))⟩, next + 1)
          else if (ts.head?.map (Tree.isWord "macro_rules")).getD false && u.isKind .word then
            some (none, next + lengthThrough isMacroGroup others + 1)
          else none
        | [] => none
    | [] => none

/-! ### Code in trees -/

/-- The code in a group, read as statements and read as the value of an attribute. -/
structure GroupCode where
  statements : List Code
  value : List Code

abbrev WithCode := Tree × GroupCode

/-- An attribute in front: its code, and the number of trees. -/
def attributeInFront? (ts : List WithCode) : Option (List Code × Nat) :=
  match ts with
  | (t, _) :: rest =>
    if t.isSymbol "#" then
      let solid := rest.takeWhile fun (u, _) => u.isComment || u.isSymbol "!"
      match rest.drop solid.length with
      | (u, code) :: _ =>
        if u.isGroup .bracket then some (code.value, solid.length + 2) else none
      | [] => none
    else none
  | [] => none

def codeOf : List WithCode → List Code
  | [] => []
  | t :: ts =>
    match attributeInFront? (t :: ts) with
    | some (code, n) => .block code :: codeOf (ts.drop (n - 1))
    | none =>
      match macroInFront? ((t :: ts).map (·.1)) with
      | some (some call, n) => .call call :: codeOf (ts.drop (n - 1))
      | some (none, n) => codeOf (ts.drop (n - 1))
      | none => if t.2.statements.isEmpty then codeOf ts else .block t.2.statements :: codeOf ts
termination_by ts => ts.length
decreasing_by
  all_goals
    simp only [List.length_drop, List.length_cons]
    omega

mutual
def Tree.code : Tree → GroupCode
  | .leaf _ => ⟨[], []⟩
  | .group _ _ body _ =>
    let inner := withCode body
    ⟨codeOf inner, codeOf (inner.dropWhile fun (t, _) => !t.isSymbol "=")⟩

def withCode : List Tree → List WithCode
  | [] => []
  | t :: ts => (t, t.code) :: withCode ts
end

def codeOfTrees (ts : List Tree) : List Code := codeOf (withCode ts)

/-! ### Order -/

mutual
/-- The calls in a piece of code, in the order of the text. -/
def Code.calls : Code → List MacroCall
  | .call c => [c]
  | .block body => callsOf body

/-- The calls in pieces of code, in the order of the text. -/
def callsOf : List Code → List MacroCall
  | [] => []
  | c :: cs => c.calls ++ callsOf cs
end

theorem callsOf_append (a b : List Code) : callsOf (a ++ b) = callsOf a ++ callsOf b := by
  induction a with
  | nil => rfl
  | cons c cs ih => rw [List.cons_append, callsOf, callsOf, ih, List.append_assoc]

end AnchorHarness.Rust
