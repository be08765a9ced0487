import AnchorHarness.CommandLine.Argument

/-!
# Commands

What a command line asks for. The first operand names the command, and what follows belongs to it.
The sources stand together: an operand that comes after an option that comes after a source belongs
to nothing. What belongs to nothing is refused only at the end, so that a request for help that
comes later is still heard, while an option without its value is refused at once.
-/

namespace AnchorHarness.CommandLine

/-- What a user asks to be done. -/
inductive Command where
  | analyze (sources entries : List String) (output : Option String)
  | snapshots (sources entries : List String) (output : Option String) (force : Bool)
  | fuzzInstructions (sources entries storage : List String) (output : Option String) (force : Bool)
  | generate (sources entries : List String) (outDir : String) (storage : List String)
      (force : Bool)
  deriving DecidableEq, Repr

/-- What a command line comes to. -/
inductive Request where
  | run (command : Command)
  | help
  | misuse
  deriving DecidableEq, Repr

/-- The names of the commands. -/
inductive CommandName where
  | analyze
  | snapshots
  | fuzzInstructions
  | generate
  deriving DecidableEq, Repr

def CommandName.all : List CommandName := [.analyze, .snapshots, .fuzzInstructions, .generate]

def CommandName.label : CommandName → String
  | .analyze => "analyze"
  | .snapshots => "snapshots"
  | .fuzzInstructions => "fuzz-instructions"
  | .generate => "generate"

def CommandName.ofLabel? (label : String) : Option CommandName :=
  CommandName.all.find? fun c => c.label = label

def CommandName.options : CommandName → List OptionName
  | .analyze => [.help, .entry, .output]
  | .snapshots => [.help, .entry, .output, .force]
  | .fuzzInstructions => [.help, .entry, .storage, .output, .force]
  | .generate => [.help, .entry, .outDir, .storage, .force]

/-! ### The arguments of a command -/

/-- Where reading stands with respect to the sources. -/
inductive Phase where
  | before
  | within
  | after
  deriving DecidableEq, Repr

/-- What has been read of the arguments of a command. -/
structure Given where
  sources : List String
  entries : List String
  storage : List String
  output : Option String
  outDir : Option String
  force : Bool
  phase : Phase
  surplus : Bool
  deriving DecidableEq, Repr

def Given.nothing : Given := ⟨[], [], [], none, none, false, .before, false⟩

def Given.operand (g : Given) (text : String) : Given :=
  if g.phase = .after then { g with surplus := true }
  else { g with sources := g.sources ++ [text], phase := .within }

/-- An option ends the sources, if they have begun. -/
def Given.interrupt (g : Given) : Given :=
  { g with phase := if g.phase = .before then .before else .after }

/-- Adds what comes after the separator. -/
def Given.remainder (g : Given) (texts : List String) : Given :=
  if g.phase = .after || (g.phase = .before && texts.isEmpty) then { g with surplus := true }
  else texts.foldl Given.operand g

def Given.flag (g : Given) (o : OptionName) : Given :=
  if o = .force then { g with force := true } else g

/-- Adds an option with its value; of an option that counts once, the last one counts. -/
def Given.value (g : Given) (o : OptionName) (value : String) : Given :=
  match o with
  | .entry => { g with entries := g.entries ++ [value] }
  | .storage => { g with storage := g.storage ++ [value] }
  | .output => { g with output := some value }
  | .outDir => { g with outDir := some value }
  | .force | .help => g

/-- Why reading ends early. -/
inductive Stop where
  | help
  | misuse
  deriving DecidableEq, Repr

def Given.add (g : Given) (flags : List OptionName) (valued : Option (OptionName × String))
    (surplus : Bool) : Except Stop Given :=
  if flags.contains .help then .error .help
  else
    let g := flags.foldl Given.flag g.interrupt
    let g := { g with surplus := g.surplus || surplus }
    .ok (match valued with
      | some (o, value) => g.value o value
      | none => g)

def Given.read (offered : List OptionName) (g : Given) : List String → Except Stop Given
  | [] => .ok g
  | argument :: rest =>
    match Argument.read offered argument with
    | .operand text => (g.operand text).read offered rest
    | .separator => .ok (g.remainder rest)
    | .unknown => ({ g.interrupt with surplus := true }).read offered rest
    | .option o attachment =>
      match Occurrence.ofOption offered o attachment with
      | none => .error .misuse
      | some ⟨flags, none, surplus⟩ => do
        let g ← g.add flags none surplus
        g.read offered rest
      | some ⟨flags, some (o, some value), surplus⟩ => do
        let g ← g.add flags (some (o, value)) surplus
        g.read offered rest
      | some ⟨flags, some (o, none), surplus⟩ =>
        match rest with
        | [] => .error .misuse
        | next :: rest =>
          match Argument.read offered next with
          | .operand value => do
            let g ← g.add flags (some (o, value)) surplus
            g.read offered rest
          | _ => .error .misuse

/-- The command with what was given, if nothing is missing or left over. -/
def Given.command (g : Given) (c : CommandName) : Option Command :=
  if g.surplus || g.sources.isEmpty then none
  else
    match c with
    | .analyze => some (.analyze g.sources g.entries g.output)
    | .snapshots => some (.snapshots g.sources g.entries g.output g.force)
    | .fuzzInstructions =>
      some (.fuzzInstructions g.sources g.entries g.storage g.output g.force)
    | .generate =>
      g.outDir.map fun outDir => .generate g.sources g.entries outDir g.storage g.force

def requestFor (c : CommandName) (arguments : List String) : Request :=
  match Given.nothing.read c.options arguments with
  | .error .help => .help
  | .error .misuse => .misuse
  | .ok g =>
    match g.command c with
    | some command => .run command
    | none => .misuse

/-! ### The command line -/

/-- Reads the arguments before the command; `surplus` says that one of them belonged to nothing. -/
def Request.readFrom (surplus : Bool) : List String → Request
  | [] => if surplus then .misuse else .help
  | argument :: rest =>
    match Argument.read [.help] argument with
    | .separator => .misuse
    | .unknown => readFrom true rest
    | .option o attachment =>
      if (Occurrence.ofOption [.help] o attachment).isSome then .help else .misuse
    | .operand text =>
      match CommandName.ofLabel? text with
      | none => .misuse
      | some c =>
        match requestFor c rest with
        | .run command => if surplus then .misuse else .run command
        | other => other

/-- Reads a command line. Without any argument it asks for help. -/
def Request.read (arguments : List String) : Request := Request.readFrom false arguments

end AnchorHarness.CommandLine
