import AnchorHarness.CommandLine.Command
import AnchorHarness.CommandLine.Sources
import AnchorHarness.Harness.Module
import AnchorHarness.Session
import AnchorHarness.Snapshot.Module

/-!
# Running commands

Every command first loads all of its programs, and only then shows or writes anything. A command
that is refused says why and yields 1. Generated code goes to a file or to the output channel, and
what is said beside it goes to the error channel.
-/

namespace AnchorHarness.CommandLine

open Console (Channel Event escape)
open Program (Idl ProgramIdl Instruction AccountGroup)
open Workspace (Path)
open SessionM (say write draw createFile writeFile loadConfig)

/-- Goes on with what was loaded, or says why the command is refused. -/
def withLoaded {α : Type} (channel : Channel) (loaded : Except LoadError α)
    (next : α → SessionM Nat) : SessionM Nat :=
  match loaded with
  | .ok a => next a
  | .error (.unreadable fault) => throw (.file fault)
  | .error (.refused refusal) => do
    say channel ("[red]Error: " ++ escape refusal.message ++ "[/red]")
    return 1

/-! ### Showing programs -/

/-- Names joined by commas, or a hyphen if there are none. -/
def listed (names : List String) : String :=
  let joined := ", ".intercalate names
  if joined.isEmpty then "-" else joined

def instructionRow (p : Instruction × AccountGroup) : List String :=
  [ p.1.name,
    p.2.name,
    toString p.2.fields.length,
    listed (p.1.parameters.map fun (name, type) => name ++ ": " ++ type),
    listed ((p.2.fields.filter Account.Field.isOptional).map (·.name)) ]

/-- The panel with a program's name, address and number of instructions. -/
def programPanel (p : ProgramIdl) : Event :=
  let address := match p.address with
    | some text => if text.isEmpty then "Not specified" else text
    | none => "Not specified"
  .panel
    ("[bold cyan]" ++ p.name ++ "[/bold cyan]\n\n" ++
      "[dim]Program ID: " ++ address ++ "[/dim]\n" ++
      "[dim]Instructions: " ++ toString p.instructions.length ++ "[/dim]")
    "[bold]Program Analysis[/bold]"

def instructionTable (p : ProgramIdl) : Event :=
  .table "Instructions" ["Name", "Context", "Accounts", "Args", "Optional"]
    (p.instructions.map instructionRow)

def showProgram (p : ProgramIdl) : SessionM Unit := do
  write .out "\n"
  draw (programPanel p)
  draw (instructionTable p)

def exportIdl (idl : Idl) (output : String) : SessionM Unit := do
  writeFile (Path.literal output) idl.json.text
  say .out ("\n[dim]IDL exported to: " ++ output ++ "[/dim]")

/-- The file that an option names; an empty name is none. -/
def namedFile (output : Option String) : Option String := output.filter fun name => !name.isEmpty

def analyzePrograms (sources entries : List String) (output : Option String) : SessionM Nat := do
  let s ← get
  withLoaded .out (loadPrograms s.files s.directory sources entries) fun idl => do
    idl.programs.forM showProgram
    match namedFile output with
    | some name => exportIdl idl name
    | none => pure ()
    return 0

/-! ### Generating -/

def sayWarnings (warnings : List String) : SessionM Unit :=
  warnings.forM fun warning => say .err ("[yellow]Warning:[/yellow] " ++ escape warning)

/-- Warns about roles that are bound but that no program has. -/
def sayUnknownRoles (bindings : Harness.Bindings) (idl : Idl) : SessionM Unit :=
  (Harness.unknownRoles bindings idl).forM fun role =>
    say .err ("[yellow]Warning:[/yellow] no account role named `" ++ role ++ "`")

/-- Puts generated code into a file, or on the output channel if none is named. -/
def putCode (code : String) (output : Option String) (force : Bool) : SessionM Unit :=
  match namedFile output with
  | some name => discard (createFile .err (Path.ofText name) code force)
  | none => write .out code

def generateSnapshots (sources entries : List String) (output : Option String) (force : Bool) :
    SessionM Nat := do
  let config ← loadConfig
  let s ← get
  withLoaded .err (loadPrograms s.files s.directory sources entries) fun idl => do
    sayWarnings (Snapshot.warningsOf config idl)
    putCode (Snapshot.codeOf config idl) output force
    return 0

def generateHarness (sources entries storage : List String) (output : Option String)
    (force : Bool) : SessionM Nat := do
  let config ← loadConfig
  let s ← get
  withLoaded .err (loadBound s.files s.directory sources entries storage) fun (idl, bindings) => do
    sayUnknownRoles bindings idl
    putCode (Harness.codeOf config bindings idl) output force
    return 0

def generateBoth (sources entries : List String) (outDir : String) (storage : List String)
    (force : Bool) : SessionM Nat := do
  let config ← loadConfig
  let s ← get
  withLoaded .out (loadBound s.files s.directory sources entries storage) fun (idl, bindings) => do
    let into (name : String) := (Path.ofText outDir).join (Path.ofText name)
    discard (createFile .out (into config.snapshotsFile) (Snapshot.codeOf config idl) force)
    discard
      (createFile .out (into config.fuzzInstructionsFile)
        (Harness.codeOf config bindings idl) force)
    sayWarnings (Snapshot.warningsOf config idl)
    sayUnknownRoles bindings idl
    return 0

/-! ### Commands -/

def Command.run : Command → SessionM Nat
  | .analyze sources entries output => analyzePrograms sources entries output
  | .snapshots sources entries output force => generateSnapshots sources entries output force
  | .fuzzInstructions sources entries storage output force =>
    generateHarness sources entries storage output force
  | .generate sources entries outDir storage force =>
    generateBoth sources entries outDir storage force

/-- Does what a command line asks for. Help and complaints about misuse are not part of the
session. -/
def Request.fulfil : Request → SessionM Nat
  | .run command => command.run
  | .help => pure 0
  | .misuse => pure 2

end AnchorHarness.CommandLine
