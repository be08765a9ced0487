import AnchorHarness.Text.Cut
import AnchorHarness.Text.Words

/-!
# Arguments

How a single argument of the command line is read, given the options that are on offer: as an
option, perhaps with a value attached, as an operand, or as the separator after which everything is
an operand. Options of one letter can be written together behind one hyphen.
-/

namespace AnchorHarness.CommandLine

/-- The options of all commands. -/
inductive OptionName where
  | entry
  | output
  | outDir
  | storage
  | force
  | help
  deriving DecidableEq, Repr

def OptionName.long : OptionName → String
  | .entry => "--entry"
  | .output => "--output"
  | .outDir => "--out-dir"
  | .storage => "--storage"
  | .force => "--force"
  | .help => "--help"

def OptionName.letter : OptionName → Char
  | .entry => 'e'
  | .output => 'o'
  | .outDir => 'd'
  | .storage => 's'
  | .force => 'f'
  | .help => 'h'

def OptionName.takesValue : OptionName → Bool
  | .entry | .output | .outDir | .storage => true
  | .force | .help => false

/-- What is attached to an option. -/
inductive Attachment where
  | nothing
  /-- Text behind an equals sign. -/
  | assigned (text : List Char)
  /-- Text right behind a letter. -/
  | joined (text : List Char)
  deriving DecidableEq, Repr

/-- One argument. -/
inductive Argument where
  | operand (text : String)
  | option (name : OptionName) (attachment : Attachment)
  /-- Written like an option that is not on offer. -/
  | unknown
  | separator
  deriving DecidableEq, Repr

/-- The option that a text is exactly, in its long or its short form. -/
def exactOption? (offered : List OptionName) (cs : List Char) : Option OptionName :=
  offered.find? fun o => o.long.toList = cs || ['-', o.letter] = cs

/-- An option with a value behind an equals sign. -/
def assignedOption? (offered : List OptionName) (cs : List Char) : Option Argument :=
  match Text.cutFirst '=' cs with
  | none => none
  | some (before, value) =>
    (exactOption? offered before).map fun o => .option o (.assigned value)

/-- A letter with more text right behind it. -/
def letterWithMore? (offered : List OptionName) (cs : List Char) : Option Argument :=
  match cs with
  | '-' :: c :: more =>
    (offered.find? fun o => o.letter = c).map fun o => .option o (.joined more)
  | _ => none

/-- A number with a minus sign in front, whole or with a decimal point. -/
def isNegativeNumber (cs : List Char) : Bool :=
  match cs with
  | '-' :: rest =>
    match Text.cutFirst '.' rest with
    | none => !rest.isEmpty && rest.all Text.isDigit
    | some (whole, part) => whole.all Text.isDigit && !part.isEmpty && part.all Text.isDigit
  | _ => false

/-- Reads an argument that begins with a hyphen and is no option as such. -/
def readHyphenated (offered : List OptionName) (text : String) : Argument :=
  let cs := text.toList
  match (assignedOption? offered cs).or (letterWithMore? offered cs) with
  | some argument => argument
  | none => if isNegativeNumber cs || cs.contains ' ' then .operand text else .unknown

def Argument.read (offered : List OptionName) (text : String) : Argument :=
  match text.toList with
  | [] => .operand text
  | ['-'] => .operand text
  | ['-', '-'] => .separator
  | c :: cs =>
    if c = '-' then
      match exactOption? offered (c :: cs) with
      | some o => .option o .nothing
      | none => readHyphenated offered text
    else .operand text

/-! ### Options written together -/

/-- What an argument with options says: flags, and last an option with a value, which may be the
next argument. -/
structure Occurrence where
  flags : List OptionName
  valued : Option (OptionName × Option String)
  /-- A letter behind a flag is none on offer. -/
  surplus : Bool
  deriving DecidableEq, Repr

def Occurrence.single (o : OptionName) : Occurrence :=
  if o.takesValue then ⟨[], some (o, none), false⟩ else ⟨[o], none, false⟩

def Occurrence.withValue (o : OptionName) (value : List Char) : Occurrence :=
  ⟨[], some (o, some (String.ofList value)), false⟩

def Occurrence.cons (o : OptionName) (r : Occurrence) : Occurrence :=
  { r with flags := o :: r.flags }

/-- An option with text behind an equals sign, unless it takes none. -/
def Occurrence.assign (o : OptionName) (value : List Char) : Option Occurrence :=
  if o.takesValue then some (withValue o value) else none

/-- A letter with text right behind it: its value if it takes one, else more letters. -/
def Occurrence.ofLetters (offered : List OptionName) (o : OptionName) :
    List Char → Option Occurrence
  | [] => if o.takesValue then some (withValue o []) else none
  | c :: cs =>
    if o.takesValue then some (withValue o (c :: cs))
    else if c = '-' then none
    else
      match offered.find? fun o => o.letter = c with
      | none => some ⟨[o], none, true⟩
      | some next =>
        let rest := match cs with
          | [] => some (single next)
          | '=' :: value => assign next value
          | _ :: _ => ofLetters offered next cs
        rest.map (cons o)

/-- What an option with its attachment says, unless a flag has something attached. -/
def Occurrence.ofOption (offered : List OptionName) (o : OptionName) :
    Attachment → Option Occurrence
  | .nothing => some (single o)
  | .assigned value => assign o value
  | .joined text => ofLetters offered o text

end AnchorHarness.CommandLine
