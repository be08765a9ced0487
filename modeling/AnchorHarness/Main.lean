import AnchorHarness.CommandLine.Run

/-!
# The program

The part of the disk that a command can touch is read into a file tree, the command is run on it,
and then what it put on the console is printed and what it changed is written.
-/

namespace AnchorHarness

open Console (Event)
open CommandLine (Command Request)
open Workspace (FileTree Location Node Path)

def commandPaths (config : Config) : Command → List Path
  | .analyze sources entries output => (sources ++ entries ++ output.toList).map Path.ofText
  | .snapshots sources entries output _ => (sources ++ entries ++ output.toList).map Path.ofText
  | .fuzzInstructions sources entries _ output _ =>
    (sources ++ entries ++ output.toList).map Path.ofText
  | .generate sources entries outDir _ _ =>
    let into (name : String) := (Path.ofText outDir).join (Path.ofText name)
    (sources ++ entries).map Path.ofText ++
      [into config.snapshotsFile, into config.fuzzInstructionsFile]

/-- The locations that following a path leads through, seen from a directory. -/
def stops (start : Location) (p : Path) : List Location :=
  let first := if p.isAbsolute then [] else start
  let step (passed : List Location) (segment : String) : List Location :=
    let here := passed.getLastD first
    passed ++ [if segment = Workspace.up then here.dropLast else here ++ [segment]]
  p.segments.foldl step (Workspace.FileTree.wayTo first)

def diskName (l : Location) : String := "/" ++ "/".intercalate l

def readNode (l : Location) : IO (Option Node) := do
  try
    return some (.file (← IO.FS.readFile (diskName l)))
  catch
    | .noFileOrDirectory .. => return none
    | .resourceVanished .. => return none
    | .inappropriateType .. => return some .directory
    | error => throw error

/-- Adds what stands at a location on the disk, if its directory is known. -/
def survey (t : FileTree) (l : Location) : IO FileTree := do
  if (t.lookup l).isSome || !t.isDirectory l.dropLast then return t
  match ← readNode l with
  | some node => return t.put l node
  | none => return t

def surveyPath (here : Location) (t : FileTree) (p : Path) : IO FileTree :=
  (stops here p).foldlM survey t

def settingNames : List String :=
  ["CLIENT_CRATE", "PROGRAM_ID_CONST", "SNAPSHOTS_MODULE", "SNAPSHOTS_FILE",
    "FUZZ_INSTRUCTIONS_FILE"].map (Workspace.variableStart ++ ·)

def readEnvironment : IO Workspace.Environment :=
  settingNames.filterMapM fun name => do return (← IO.getEnv name).map fun value => (name, value)

def beginSession (command : Command) : IO Session := do
  let here := (Path.ofText (← IO.currentDir).toString).segments
  let ways := (Workspace.upwards Workspace.searchDepth ⟨"/", here⟩).map fun d =>
    d.child Workspace.settingsName
  let files ← ways.foldlM (surveyPath here) FileTree.empty
  let s : Session := ⟨files, here, ← readEnvironment, []⟩
  let config := Workspace.configOf (SessionM.loadConfig.perform s).2.environment
  return { s with files := ← (commandPaths config command).foldlM (surveyPath here) files }

/-- A text in markup as it is shown. What a session holds has been drawn, so there is no fault. -/
def shownText (markup : String) : IO String :=
  match Console.render markup with
  | .ok text => return text
  | .error fault => throw (IO.userError fault.message)

def printEvent : Event → IO Unit
  | .text .out text => IO.print text
  | .text .err text => IO.eprint text
  | .panel content title => do
    IO.println ((← shownText title) ++ "\n\n" ++ (← shownText content) ++ "\n")
  | .table title columns rows => do
    IO.println (← shownText title)
    (columns :: rows).forM fun cells => do
      IO.println (" | ".intercalate (← cells.mapM shownText))

/-- Writes a node to the disk unless it was there before. -/
def writeNode (earlier : FileTree) (l : Location) (n : Node) : IO Unit :=
  if earlier.lookup l = some n then pure ()
  else
    match n with
    | .file content => IO.FS.writeFile (diskName l) content
    | .directory => IO.FS.createDir (diskName l)

def usage : String :=
  "usage: anchor-harness COMMAND SOURCE... [-e ENTRY]... [OPTION]...\n" ++
  "commands:\n" ++
  "  analyze            show instructions and their accounts ([-o FILE])\n" ++
  "  snapshots          generate account snapshots ([-o FILE] [-f])\n" ++
  "  fuzz-instructions  generate a fuzzing harness ([-s ROLE=STRATEGY]... [-o FILE] [-f])\n" ++
  "  generate           generate both into a directory (-d DIR [-s ROLE=STRATEGY]... [-f])"

def runOnDisk (command : Command) : IO UInt32 := do
  let s ← beginSession command
  let (result, after) := command.run.perform s
  after.events.forM printEvent
  after.files.nodes.forM fun (l, n) => writeNode s.files l n
  match result with
  | .ok code => return code.toUInt32
  | .error i =>
    IO.eprintln i.message
    return 1

end AnchorHarness

def main (arguments : List String) : IO UInt32 := do
  match AnchorHarness.CommandLine.Request.read arguments with
  | .run command => AnchorHarness.runOnDisk command
  | .help => do
    IO.println AnchorHarness.usage
    return 0
  | .misuse => do
    IO.eprintln AnchorHarness.usage
    return 2
