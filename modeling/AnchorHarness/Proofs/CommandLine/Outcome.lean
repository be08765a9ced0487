import AnchorHarness.Proofs.CommandLine.UnknownRoles
import AnchorHarness.Proofs.Console.Escape
import AnchorHarness.Proofs.Generation

/-!
# What a run leaves behind

Until all programs are loaded and all storage is read, a run does nothing but take over the settings
into its environment. What can be refused is refused by then: generating the code cannot fail. So a
refused run leaves every file as it was and says one message. A run that puts code on the output
channel puts nothing else there.
-/

namespace AnchorHarness.CommandLine

open Console (Channel Event escape)
open Generation (tryStep tryRegistry)
open Harness (Bindings parseBinding parseBindings unknownRoles)
open Program (Idl ProgramIdl)
open SessionM (perform_bind perform_say told loadConfig)
open Workspace (Environment FileTree Location)

/-! ### Loading -/

theorem read_of_contains {t : FileTree} {here : Location} {p : Workspace.Path}
    (there : t.contains here p = true) {o : Workspace.Obstacle}
    (h : t.read here p = .error o) : o = .isDirectory := by
  unfold FileTree.contains FileTree.find? at there
  unfold FileTree.read at h
  cases followed : t.follow here p with
  | error e => simp [followed] at there
  | ok l =>
    simp only [followed] at there h
    cases found : t.lookup l with
    | none => simp [found] at there
    | some n =>
      cases n with
      | file content => simp [found, bind, Except.bind, pure, Except.pure] at h
      | directory =>
        simp only [bind, Except.bind, found] at h
        cases h
        rfl

/-- Nothing but a directory is there and cannot be read. -/
theorem loadSource_eq_unreadable {t : FileTree} {here : Location}
    {missing : Workspace.Path → Refusal} {name : String} {fault : Workspace.FileFault}
    (h : loadSource t here missing name = .error (.unreadable fault)) :
    ∃ path, fault = .obstructed .isDirectory path := by
  unfold loadSource at h
  dsimp only at h
  split_ifs at h with there
  · unfold Workspace.readText at h
    cases read : t.read here (Workspace.Path.ofText name) with
    | ok content =>
      rw [read] at h
      cases h
    | error o =>
      rw [read] at h
      cases h
      exact ⟨_, by rw [read_of_contains there read]⟩
  · cases h

/-- The code of an entry file, if one is named. -/
def loadEntry (t : FileTree) (here : Location) :
    Option String → Except LoadError (Option Rust.SourceFile)
  | none => .ok none
  | some name => (loadSource t here .entryMissing name).map some

theorem loadProgram_eq (t : FileTree) (here : Location) (source : String) (entry : Option String) :
    loadProgram t here source entry = (do
      let code ← loadSource t here .sourceMissing source
      let entryCode ← loadEntry t here entry
      ((Program.analyze code entryCode none).map (·.idl)).mapError
        fun error => .refused (.program error)) := by
  unfold loadProgram loadEntry
  refine bind_congr fun code => ?_
  cases entry with
  | none =>
    simp only [bind, pure, Except.bind, Except.pure]
    cases Program.analyze code none none <;> rfl
  | some name =>
    refine bind_congr fun entryCode => ?_
    dsimp only
    cases Program.analyze code entryCode none <;> rfl

theorem loadProgram_eq_unreadable {t : FileTree} {here : Location} {source : String}
    {entry : Option String} {fault : Workspace.FileFault}
    (h : loadProgram t here source entry = .error (.unreadable fault)) :
    ∃ path, fault = .obstructed .isDirectory path := by
  rw [loadProgram_eq] at h
  obtain unread | ⟨code, -, h⟩ := Fallible.bind_eq_error.mp h
  · exact loadSource_eq_unreadable unread
  · obtain unread | ⟨entryCode, -, h⟩ := Fallible.bind_eq_error.mp h
    · cases entry with
      | none => cases unread
      | some name => exact loadSource_eq_unreadable (Fallible.map_eq_error.mp unread)
    · obtain ⟨error, -, he⟩ := Fallible.mapError_eq_error.mp h
      cases he

/-- What loading the program at a place among the sources comes to. -/
def programAt (t : FileTree) (here : Location) (sources entries : List String) (place : Nat) :
    Option (Except LoadError ProgramIdl) :=
  sources[place]?.map fun source => loadProgram t here source entries[place]?

theorem getElem?_pairEntries (sources entries : List String) (place : Nat) :
    (pairEntries sources entries)[place]? =
      sources[place]?.map fun source => (source, entries[place]?) := by
  fun_induction pairEntries sources entries generalizing place with
  | case1 => rfl
  | case2 source sources ih =>
    cases place with
    | zero => rfl
    | succ place => exact (ih place).trans (by simp)
  | case3 source sources entry entries ih =>
    cases place with
    | zero => rfl
    | succ place => exact ih place

section

variable {t : FileTree} {here : Location} {sources entries : List String}

theorem getElem?_pairEntries_map (place : Nat) :
    ((pairEntries sources entries)[place]?.map fun (source, entry) =>
      loadProgram t here source entry) = programAt t here sources entries place := by
  rw [getElem?_pairEntries, Option.map_map]
  rfl

theorem loadPrograms_eq_ok {idl : Idl} :
    loadPrograms t here sources entries = .ok idl ↔
      entries.length ≤ sources.length ∧
        ∀ place, programAt t here sources entries place = idl.programs[place]?.map .ok := by
  unfold loadPrograms
  split_ifs with surplus
  · simp [surplus]
  · simp only [Fallible.map_eq_ok, Fallible.mapM_eq_ok_iff, getElem?_pairEntries_map]
    constructor
    · rintro ⟨programs, loaded, rfl⟩
      exact ⟨Nat.le_of_not_lt surplus, loaded⟩
    · rintro ⟨-, loaded⟩
      exact ⟨idl.programs, loaded, rfl⟩

/-- Loading fails at the first program that does. -/
theorem loadPrograms_eq_error {e : LoadError} :
    loadPrograms t here sources entries = .error e ↔
      (sources.length < entries.length ∧
          e = .refused (.tooManyEntries entries.length sources.length)) ∨
        entries.length ≤ sources.length ∧ ∃ place,
          programAt t here sources entries place = some (.error e) ∧
            ∀ k < place, ∃ p, programAt t here sources entries k = some (.ok p) := by
  unfold loadPrograms
  split_ifs with surplus
  · simp [surplus, Nat.not_le_of_lt surplus, eq_comm]
  · simp only [Fallible.map_eq_error, Fallible.mapM_eq_error_iff, getElem?_pairEntries_map,
      surplus, Nat.le_of_not_lt surplus, true_and, false_and, false_or]

end

theorem loadBound_nil (t : FileTree) (here : Location) (sources entries : List String) :
    loadBound t here sources entries [] =
      (loadPrograms t here sources entries).map fun idl => (idl, []) := by
  unfold loadBound
  cases loadPrograms t here sources entries <;> rfl

theorem parseBindings_eq_error (texts : List String) (e : Harness.StorageError) :
    parseBindings texts = .error e ↔ ∃ place : Nat,
      texts[place]?.map parseBinding = some (.error e) ∧
        ∀ k < place, ∃ b, texts[k]?.map parseBinding = some (.ok b) := by
  rw [← Fallible.mapM_eq_error_iff]
  exact Fallible.foldlM_map_eq_error

/-! ### Settings -/

/-- The settings in a session, and the environment once those of the files are loaded. -/
def settingsOf (s : Session) : Except Interruption Config × Environment :=
  match Workspace.loadSettings s.files s.directory ⟨"/", s.directory⟩ s.environment with
  | (environment, .ok ()) => (.ok (Workspace.configOf environment), environment)
  | (environment, .error fault) => (.error (SessionM.ofSettingsFault fault), environment)

theorem perform_loadSettings (start : Workspace.Path) (s : Session) :
    (SessionM.loadSettings start).perform s =
      (SessionM.orInterrupt SessionM.ofSettingsFault
        (Workspace.loadSettings s.files s.directory start s.environment).2).perform
          { s with environment :=
              (Workspace.loadSettings s.files s.directory start s.environment).1 } := rfl

/-- Loading the settings changes nothing but the environment. -/
theorem perform_loadConfig (s : Session) :
    loadConfig.perform s = ((settingsOf s).1, { s with environment := (settingsOf s).2 }) := by
  have loaded : loadConfig.perform s =
      (SessionM.loadSettings ⟨"/", s.directory⟩ >>= fun _ => do
        return Workspace.configOf (← get).environment).perform s := rfl
  rw [loaded, perform_bind, perform_loadSettings]
  unfold settingsOf
  obtain ⟨environment, result⟩ :=
    Workspace.loadSettings s.files s.directory ⟨"/", s.directory⟩ s.environment
  cases result <;> rfl

/-- An action goes on with its settings, if it gets any. -/
theorem perform_configured {α : Type} (f : Config → Session → SessionM α) {s : Session}
    {config : Config} {environment : Environment} (h : settingsOf s = (.ok config, environment)) :
    (do
      let config ← loadConfig
      let s ← get
      f config s).perform s = (f config { s with environment }).perform { s with environment } := by
  rw [perform_bind, perform_loadConfig, h]
  rfl

/-! ### Commands -/

namespace Command

def sources : Command → List String
  | .analyze sources .. => sources
  | .snapshots sources .. => sources
  | .fuzzInstructions sources .. => sources
  | .generate sources .. => sources

def entries : Command → List String
  | .analyze _ entries .. => entries
  | .snapshots _ entries .. => entries
  | .fuzzInstructions _ entries .. => entries
  | .generate _ entries .. => entries

def storage : Command → List String
  | .analyze .. => []
  | .snapshots .. => []
  | .fuzzInstructions _ _ storage .. => storage
  | .generate _ _ _ storage _ => storage

def output : Command → Option String
  | .analyze _ _ output => output
  | .snapshots _ _ output _ => output
  | .fuzzInstructions _ _ _ output _ => output
  | .generate .. => none

/-- The command generates one text, which goes to the output channel if no file is named. -/
def IsGenerator : Command → Prop
  | .snapshots .. => True
  | .fuzzInstructions .. => True
  | _ => False

/-- Where the command says why it is refused. -/
def complaints : Command → Channel
  | .analyze .. => .out
  | .snapshots .. => .err
  | .fuzzInstructions .. => .err
  | .generate .. => .out

def programAt (c : Command) (s : Session) (place : Nat) : Option (Except LoadError ProgramIdl) :=
  CommandLine.programAt s.files s.directory c.sources c.entries place

def load (c : Command) (s : Session) : Except LoadError (Idl × Bindings) :=
  loadBound s.files s.directory c.sources c.entries c.storage

/-- The settings with which the command goes on, if it does, and the environment then. -/
def settings (c : Command) (s : Session) : Except Interruption Config × Environment :=
  match c with
  | .analyze .. => (.ok .standard, s.environment)
  | _ => settingsOf s

/-- Why a command is refused: the first thing that is wrong with its files, or else with its
storage. -/
inductive Refused (c : Command) (s : Session) : Refusal → Prop where
  | entries (surplus : c.sources.length < c.entries.length) :
    Refused c s (.tooManyEntries c.entries.length c.sources.length)
  | program (place : Nat) (refusal : Refusal) (paired : c.entries.length ≤ c.sources.length)
    (loaded : ∀ k < place, ∃ p, c.programAt s k = some (.ok p))
    (refused : c.programAt s place = some (.error (.refused refusal))) : Refused c s refusal
  | storage (place : Nat) (error : Harness.StorageError)
    (paired : c.entries.length ≤ c.sources.length)
    (loaded : ∀ k < c.sources.length, ∃ p, c.programAt s k = some (.ok p))
    (read : ∀ k < place, ∃ b, c.storage[k]?.map parseBinding = some (.ok b))
    (malformed : c.storage[place]?.map parseBinding = some (.error error)) :
    Refused c s (.storage error)

/-- The programs of a command, those of its sources in order, and the strategies of its roles. -/
structure Loaded (c : Command) (s : Session) (idl : Idl) (bindings : Bindings) : Prop where
  paired : c.entries.length ≤ c.sources.length
  programs : ∀ place, c.programAt s place = idl.programs[place]?.map .ok
  bindings : parseBindings c.storage = .ok bindings

/-- The warnings of a generator, as they are written in markup, and its code. -/
def generated (config : Config) (idl : Idl) (bindings : Bindings) : Command → List String × String
  | .snapshots .. => ((Snapshot.warningsOf config idl).map fun warning =>
      "[yellow]Warning:[/yellow] " ++ escape warning, Snapshot.codeOf config idl)
  | .fuzzInstructions .. =>
    ((unknownRoles bindings idl).map unknownRoleMarkup, Harness.codeOf config bindings idl)
  | _ => ([], "")

variable {c : Command} {s : Session}

theorem load_eq_ok {idl : Idl} {bindings : Bindings} :
    c.load s = .ok (idl, bindings) ↔ c.Loaded s idl bindings := by
  unfold load loadBound
  simp only [Fallible.bind_eq_ok, Fallible.mapError_eq_ok, loadPrograms_eq_ok]
  constructor
  · rintro ⟨_, ⟨paired, programs⟩, _, read, he⟩
    cases he
    exact ⟨paired, programs, read⟩
  · rintro ⟨paired, programs, read⟩
    exact ⟨idl, ⟨paired, programs⟩, bindings, read, rfl⟩

theorem exists_loadPrograms_eq_ok :
    (∃ idl, loadPrograms s.files s.directory c.sources c.entries = .ok idl) ↔
      c.entries.length ≤ c.sources.length ∧
        ∀ k < c.sources.length, ∃ p, c.programAt s k = some (.ok p) := by
  constructor
  · rintro ⟨idl, h⟩
    obtain ⟨paired, programs⟩ := loadPrograms_eq_ok.mp h
    refine ⟨paired, fun k hk => ?_⟩
    have there := programs k
    rw [CommandLine.programAt, List.getElem?_eq_getElem hk] at there
    obtain ⟨p, -, hp⟩ := Option.map_eq_some_iff.mp there.symm
    exact ⟨p, by rw [programAt, programs k, ← there, hp]; rfl⟩
  · rintro ⟨paired, loaded⟩
    cases h : loadPrograms s.files s.directory c.sources c.entries with
    | ok idl => exact ⟨idl, rfl⟩
    | error e =>
      obtain ⟨surplus, -⟩ | ⟨-, place, failed, -⟩ := loadPrograms_eq_error.mp h
      · exact absurd paired (Nat.not_le_of_lt surplus)
      · obtain ⟨source, there, -⟩ := Option.map_eq_some_iff.mp failed
        obtain ⟨p, hp⟩ := loaded place (List.getElem?_eq_some_iff.mp there).1
        rw [programAt, failed] at hp
        cases hp

theorem load_eq_refused {refusal : Refusal} :
    c.load s = .error (.refused refusal) ↔ c.Refused s refusal := by
  unfold load loadBound
  simp only [Fallible.bind_eq_error, Fallible.mapError_eq_error, parseBindings_eq_error,
    LoadError.refused.injEq]
  constructor
  · rintro (h | ⟨idl, h, ⟨error, ⟨place, malformed, read⟩, rfl⟩ | ⟨_, _, he⟩⟩)
    · obtain ⟨surplus, he⟩ | ⟨paired, place, refused, loaded⟩ := loadPrograms_eq_error.mp h
      · cases he
        exact .entries surplus
      · exact .program place refusal paired loaded refused
    · obtain ⟨paired, loaded⟩ := exists_loadPrograms_eq_ok.mp ⟨idl, h⟩
      exact .storage place error paired loaded read malformed
    · cases he
  · intro refused
    cases refused with
    | entries surplus => exact .inl (loadPrograms_eq_error.mpr (.inl ⟨surplus, rfl⟩))
    | program place _ paired loaded refused =>
      exact .inl (loadPrograms_eq_error.mpr (.inr ⟨paired, place, refused, loaded⟩))
    | storage place error paired loaded read malformed =>
      obtain ⟨idl, h⟩ := exists_loadPrograms_eq_ok.mpr ⟨paired, loaded⟩
      exact .inr ⟨idl, h, .inl ⟨error, ⟨place, malformed, read⟩, rfl⟩⟩

theorem load_eq_unreadable {fault : Workspace.FileFault}
    (h : c.load s = .error (.unreadable fault)) :
    ∃ path, fault = .obstructed .isDirectory path := by
  unfold load loadBound at h
  simp only [Fallible.bind_eq_error, Fallible.mapError_eq_error] at h
  obtain h | ⟨idl, -, ⟨error, -, he⟩ | ⟨bindings, -, he⟩⟩ := h
  · obtain ⟨-, he⟩ | ⟨-, place, unread, -⟩ := loadPrograms_eq_error.mp h
    · cases he
    · obtain ⟨source, -, unread⟩ := Option.map_eq_some_iff.mp unread
      exact loadProgram_eq_unreadable unread
  · cases he
  · cases he

end Command

/-! ### Runs -/

def errorMarkup (refusal : Refusal) : String :=
  "[red]Error: " ++ escape refusal.message ++ "[/red]"

theorem withLoaded_map {α β : Type} (channel : Channel) (loaded : Except LoadError α) (f : α → β)
    (next : β → SessionM Nat) :
    withLoaded channel (loaded.map f) next = withLoaded channel loaded fun a => next (f a) := by
  cases loaded with
  | ok a => rfl
  | error e => cases e <;> rfl

/-- A refused command says why, and yields 1. -/
theorem perform_withLoaded_refused {α : Type} (channel : Channel) (refusal : Refusal)
    (next : α → SessionM Nat) (s : Session) :
    ∃ text, Console.message (errorMarkup refusal) = .ok text ∧
      (withLoaded channel (.error (.refused refusal)) next).perform s =
        (.ok 1, { s with events := s.events ++ [.text channel text] }) := by
  obtain ⟨text, shown⟩ := Console.exists_message_error refusal.message
  refine ⟨text, shown, ?_⟩
  unfold withLoaded
  rw [perform_bind, perform_say, shown]
  rfl

/-- Warnings go to the error channel, and code that comes after them to the output channel. -/
theorem perform_saying_writing (markups : List String) (code : String) (s t : Session) :
    (do
      markups.forM fun markup => SessionM.say .err markup
      SessionM.write .out code
      return 0 : SessionM Nat).perform s = (.ok 0, t) ↔ ∃ texts,
        List.Forall₂ (fun markup text => Console.message markup = .ok text) markups texts ∧
          { s with events := s.events ++ texts.map (.text .err) ++ [.text .out code] } = t := by
  rw [perform_bind]
  constructor
  · intro run
    cases said : (markups.forM fun markup => SessionM.say .err markup).perform s with
    | mk result u =>
      rw [said] at run
      cases result with
      | error e => cases run
      | ok done =>
        obtain ⟨texts, shown, rfl⟩ :=
          (SessionM.perform_forM_say_eq_ok .err (fun markup => markup) markups s u).mp said
        cases run
        exact ⟨texts, shown, rfl⟩
  · rintro ⟨texts, shown, rfl⟩
    have said : (markups.forM fun markup => SessionM.say .err markup).perform s =
        (.ok (), told .err texts s) :=
      SessionM.perform_forM_say .err (fun markup => markup) shown s
    rw [said]
    rfl

namespace Command

variable {c : Command} {s : Session}

theorem run_of_interrupted {interruption : Interruption} {environment : Environment}
    (h : c.settings s = (.error interruption, environment)) :
    c.run.perform s = (.error interruption, { s with environment }) := by
  cases c with
  | analyze => cases h
  | snapshots =>
    change settingsOf s = _ at h
    unfold run generateSnapshots
    rw [perform_bind, perform_loadConfig, h]
  | fuzzInstructions =>
    change settingsOf s = _ at h
    unfold run generateHarness
    rw [perform_bind, perform_loadConfig, h]
  | generate =>
    change settingsOf s = _ at h
    unfold run generateBoth
    rw [perform_bind, perform_loadConfig, h]

/-- Once it has its settings, a command loads its programs. -/
theorem exists_run_eq {config : Config} {environment : Environment}
    (h : c.settings s = (.ok config, environment)) :
    ∃ next : Idl × Bindings → SessionM Nat, c.run.perform s =
      (withLoaded c.complaints (c.load s) next).perform { s with environment } := by
  unfold load
  cases c with
  | analyze sources entries output =>
    cases h
    obtain ⟨next, run⟩ : ∃ next, (analyze sources entries output).run.perform s =
        (withLoaded .out (loadPrograms s.files s.directory sources entries) next).perform s := by
      unfold run analyzePrograms
      rw [perform_bind]
      exact ⟨_, rfl⟩
    refine ⟨fun loaded => next loaded.1, ?_⟩
    rw [storage, loadBound_nil, withLoaded_map]
    exact run
  | snapshots sources entries output force =>
    change settingsOf s = _ at h
    refine ⟨fun loaded => do
      sayWarnings (Snapshot.warningsOf config loaded.1)
      putCode (Snapshot.codeOf config loaded.1) output force
      return 0, ?_⟩
    unfold run generateSnapshots
    rw [perform_configured _ h, storage, loadBound_nil, withLoaded_map]
    rfl
  | fuzzInstructions =>
    change settingsOf s = _ at h
    unfold run generateHarness
    rw [perform_configured _ h]
    exact ⟨_, rfl⟩
  | generate =>
    change settingsOf s = _ at h
    unfold run generateBoth
    rw [perform_configured _ h]
    exact ⟨_, rfl⟩

theorem run_generator (generator : c.IsGenerator) (unnamed : namedFile c.output = none)
    {config : Config} {environment : Environment}
    (h : c.settings s = (.ok config, environment)) :
    c.run.perform s = (withLoaded .err (c.load s) fun (idl, bindings) => do
      (c.generated config idl bindings).1.forM fun markup => SessionM.say .err markup
      SessionM.write .out (c.generated config idl bindings).2
      return 0).perform { s with environment } := by
  cases c with
  | analyze => exact generator.elim
  | generate => exact generator.elim
  | snapshots sources entries output force =>
    change settingsOf s = _ at h
    change namedFile output = none at unnamed
    unfold run generateSnapshots load
    rw [perform_configured _ h, storage, loadBound_nil, withLoaded_map]
    unfold putCode generated
    simp only [unnamed, List.forM_eq_forM, List.forM_map]
    rfl
  | fuzzInstructions sources entries texts output force =>
    change settingsOf s = _ at h
    change namedFile output = none at unnamed
    unfold run generateHarness load
    rw [perform_configured _ h]
    unfold putCode generated
    simp only [unnamed, List.forM_eq_forM, List.forM_map]
    rfl

theorem run_of_refused {config : Config} {environment : Environment}
    (h : c.settings s = (.ok config, environment)) {refusal : Refusal}
    (refused : c.Refused s refusal) :
    ∃ text, Console.message (errorMarkup refusal) = .ok text ∧ c.run.perform s =
      (.ok 1, { s with environment, events := s.events ++ [.text c.complaints text] }) := by
  obtain ⟨next, run⟩ := exists_run_eq h
  rw [run, load_eq_refused.mpr refused]
  exact perform_withLoaded_refused c.complaints refusal next { s with environment }

theorem run_of_unreadable {config : Config} {environment : Environment}
    (h : c.settings s = (.ok config, environment)) {fault : Workspace.FileFault}
    (unread : c.load s = .error (.unreadable fault)) :
    c.run.perform s = (.error (.file fault), { s with environment }) := by
  obtain ⟨next, run⟩ := exists_run_eq h
  rw [run, unread]
  rfl

/-- A generator that yields 0 has loaded its programs, and puts its code on the output channel. -/
theorem run_generator_eq_ok (generator : c.IsGenerator) (unnamed : namedFile c.output = none)
    {config : Config} {environment : Environment}
    (h : c.settings s = (.ok config, environment)) (t : Session) :
    c.run.perform s = (.ok 0, t) ↔ ∃ idl bindings texts, c.Loaded s idl bindings ∧
      List.Forall₂ (fun markup text => Console.message markup = .ok text)
        (c.generated config idl bindings).1 texts ∧
      { s with
        environment
        events := s.events ++ texts.map (.text .err) ++
          [.text .out (c.generated config idl bindings).2] } = t := by
  rw [run_generator generator unnamed h]
  constructor
  · intro run
    cases loaded : c.load s with
    | error e =>
      rw [loaded] at run
      cases e with
      | unreadable fault => cases run
      | refused refusal =>
        obtain ⟨text, -, refused⟩ := perform_withLoaded_refused .err refusal _ _
        rw [refused] at run
        cases run
    | ok both =>
      rw [loaded] at run
      obtain ⟨texts, shown, ends⟩ := (perform_saying_writing _ _ _ t).mp run
      exact ⟨both.1, both.2, texts, load_eq_ok.mp loaded, shown, ends⟩
  · rintro ⟨idl, bindings, texts, there, shown, ends⟩
    rw [load_eq_ok.mpr there]
    exact (perform_saying_writing _ _ _ t).mpr ⟨texts, shown, ends⟩

theorem exists_shown_warnings (warnings : List String) :
    ∃ texts, List.Forall₂ (fun markup text => Console.message markup = .ok text)
      (warnings.map fun warning => "[yellow]Warning:[/yellow] " ++ escape warning) texts := by
  induction warnings with
  | nil => exact ⟨[], .nil⟩
  | cons warning warnings ih =>
    obtain ⟨text, shown⟩ := Console.exists_message_warning warning
    obtain ⟨texts, rest⟩ := ih
    exact ⟨text :: texts, .cons shown rest⟩

/-- The warnings about snapshots can always be shown, so loaded programs are enough for the code. -/
theorem exists_run_snapshots {sources entries : List String} {output : Option String}
    {force : Bool} (unnamed : namedFile output = none) {config : Config}
    {environment : Environment}
    (h : (Command.snapshots sources entries output force).settings s = (.ok config, environment))
    {idl : Idl} {bindings : Bindings}
    (loaded : (Command.snapshots sources entries output force).Loaded s idl bindings) :
    ∃ t, (Command.snapshots sources entries output force).run.perform s = (.ok 0, t) := by
  have generator : (Command.snapshots sources entries output force).IsGenerator := trivial
  obtain ⟨texts, shown⟩ := exists_shown_warnings (Snapshot.warningsOf config idl)
  exact ⟨_, (run_generator_eq_ok generator unnamed h _).mpr
    ⟨idl, bindings, texts, loaded, shown, rfl⟩⟩

end Command

/-! ### Outcomes -/

/-- What was put on the output channel, drawn parts included. -/
def onOutput (events : List Event) : List Event :=
  events.filter fun e =>
    match e with
    | .text .err _ => false
    | _ => true

theorem onOutput_append (a b : List Event) : onOutput (a ++ b) = onOutput a ++ onOutput b :=
  List.filter_append a b

theorem onOutput_err (texts : List String) : onOutput (texts.map (.text .err)) = [] := by
  induction texts with
  | nil => rfl
  | cons text texts ih => exact ih

theorem onOutput_complaint {c : Command} (generator : c.IsGenerator) (text : String) :
    onOutput [.text c.complaints text] = [] := by
  cases c with
  | analyze => exact generator.elim
  | generate => exact generator.elim
  | snapshots => rfl
  | fuzzInstructions => rfl

/-- A command that is refused, wherever in its files or its storage the reason lies, says why,
yields 1 and leaves all files as they were; a generator then puts nothing on the output channel.
Settings that cannot be loaded and directories in place of sources end a run before it does
anything, and loaded programs are never refused later. A generator that yields 0 puts nothing on the
output channel but the code of its sources in order, and all of its warnings on the error channel.
All of this is about files that hold text; one that is not UTF-8 is no node of a file tree. -/
theorem run_settled (c : Command) (s : Session) :
    (∀ interruption environment, c.settings s = (.error interruption, environment) →
      c.run.perform s = (.error interruption, { s with environment })) ∧
    ∀ config environment, c.settings s = (.ok config, environment) →
      (∀ refusal, c.Refused s refusal → ∃ text,
        Console.message (errorMarkup refusal) = .ok text ∧
        c.run.perform s =
          (.ok 1, { s with environment, events := s.events ++ [.text c.complaints text] }) ∧
        (c.IsGenerator →
          onOutput (s.events ++ [.text c.complaints text]) = onOutput s.events)) ∧
      (∀ fault, c.load s = .error (.unreadable fault) →
        (∃ path, fault = .obstructed .isDirectory path) ∧
        c.run.perform s = (.error (.file fault), { s with environment })) ∧
      (∀ idl bindings, c.Loaded s idl bindings → ∀ p ∈ idl.programs,
        (∀ ix ∈ p.instructions, ∀ name,
          ix.2.fields.mapM tryStep = .ok (Snapshot.structFor name ix.2).plan) ∧
        tryRegistry bindings p = .ok (Harness.registryOf bindings p)) ∧
      (c.IsGenerator → namedFile c.output = none → ∀ t, c.run.perform s = (.ok 0, t) ↔
        ∃ idl bindings texts, c.Loaded s idl bindings ∧
          List.Forall₂ (fun markup text => Console.message markup = .ok text)
            (c.generated config idl bindings).1 texts ∧
          { s with
            environment
            events := s.events ++ texts.map (.text .err) ++
              [.text .out (c.generated config idl bindings).2] } = t ∧
          onOutput t.events =
            onOutput s.events ++ [.text .out (c.generated config idl bindings).2]) := by
  refine ⟨fun interruption environment h => Command.run_of_interrupted h, ?_⟩
  intro config environment h
  refine ⟨?_, ?_, ?_, ?_⟩
  · intro refusal refused
    obtain ⟨text, shown, run⟩ := Command.run_of_refused h refused
    refine ⟨text, shown, run, fun generator => ?_⟩
    rw [onOutput_append, onOutput_complaint generator, List.append_nil]
  · intro fault unread
    exact ⟨Command.load_eq_unreadable unread, Command.run_of_unreadable h unread⟩
  · intro idl bindings _ p _
    exact ⟨fun ix _ name => Generation.mapM_tryStep name ix.2,
      Generation.tryRegistry_eq bindings p⟩
  · intro generator unnamed t
    rw [Command.run_generator_eq_ok generator unnamed h]
    have only (texts : List String) (code : String) :
        onOutput (s.events ++ texts.map (.text .err) ++ [.text .out code]) =
          onOutput s.events ++ [.text .out code] := by
      rw [onOutput_append, onOutput_append, onOutput_err, List.append_nil]
      rfl
    constructor
    · rintro ⟨idl, bindings, texts, loaded, shown, rfl⟩
      exact ⟨idl, bindings, texts, loaded, shown, rfl, only texts _⟩
    · rintro ⟨idl, bindings, texts, loaded, shown, ends, -⟩
      exact ⟨idl, bindings, texts, loaded, shown, ends⟩

/-! ### A run whose second source is missing -/

def shop : Session :=
  ⟨FileTree.empty.plant ["lib.rs"] "#[program]mod a{}", [], [], []⟩

def shopTrees : List Rust.Tree :=
  [.leaf ⟨[], .symbol, ['#']⟩,
    .group .bracket ⟨[], .symbol, ['[']⟩ [.leaf ⟨[], .word, "program".toList⟩]
      ⟨[], .symbol, [']']⟩,
    .leaf ⟨[], .word, "mod".toList⟩, .leaf ⟨[' '], .word, ['a']⟩,
    .group .brace ⟨[], .symbol, ['{']⟩ [] ⟨[], .symbol, ['}']⟩]

theorem treesOfText_shop : Rust.treesOfText "#[program]mod a{}".toList = shopTrees := by cbv

theorem siblingsOf_cons {t : Rust.WithItems} {ts : List Rust.WithItems} {n : Nat}
    (length : Rust.siblingLength t.1 (ts.map (·.1)) = n) :
    Rust.siblingsOf (t :: ts) =
      Rust.siblingOf (t :: ts.take n) :: Rust.siblingsOf (ts.drop n) := by
  rw [Rust.siblingsOf, length]

theorem itemsOfTrees_shop :
    Rust.itemsOfTrees shopTrees = [.attribute "program", .node (.module "a" [])] := by
  have none : Rust.siblingsOf [] = [] := by rw [Rust.siblingsOf]
  have first : Rust.itemsOfTrees shopTrees = .attribute "program" ::
      Rust.siblingsOf ((Rust.withItems shopTrees).drop 2) := siblingsOf_cons rfl
  have second : Rust.siblingsOf ((Rust.withItems shopTrees).drop 2) =
      .node (.module "a" (Rust.siblingsOf [])) :: Rust.siblingsOf [] := siblingsOf_cons rfl
  rw [first, second, none]

theorem codeOf_nil : Rust.codeOf [] = [] := by
  rw [Rust.codeOf]

theorem codeOf_cons_of_none {t : Rust.WithCode} {ts : List Rust.WithCode}
    (unmarked : Rust.attributeInFront? (t :: ts) = none)
    (uncalled : Rust.macroInFront? ((t :: ts).map (·.1)) = none)
    (empty : t.2.statements.isEmpty = true) : Rust.codeOf (t :: ts) = Rust.codeOf ts := by
  rw [Rust.codeOf, unmarked]
  simp only [uncalled, empty, if_true]

theorem codeOf_cons_of_some {t : Rust.WithCode} {ts : List Rust.WithCode} {code : List Rust.Code}
    {n : Nat} (marked : Rust.attributeInFront? (t :: ts) = some (code, n)) :
    Rust.codeOf (t :: ts) = .block code :: Rust.codeOf (ts.drop (n - 1)) := by
  rw [Rust.codeOf, marked]

/-- Nothing but the attribute in front has a place for code. -/
theorem codeOfTrees_shop : Rust.codeOfTrees shopTrees = [.block []] := by
  have marked : Rust.attributeInFront? (Rust.withCode shopTrees) = some (Rust.codeOf [], 2) := rfl
  have first : Rust.codeOfTrees shopTrees =
      .block (Rust.codeOf []) :: Rust.codeOf ((Rust.withCode shopTrees).drop 2) :=
    codeOf_cons_of_some marked
  have keyword : Rust.codeOf ((Rust.withCode shopTrees).drop 2) =
      Rust.codeOf ((Rust.withCode shopTrees).drop 3) := codeOf_cons_of_none rfl rfl rfl
  have name : Rust.codeOf ((Rust.withCode shopTrees).drop 3) =
      Rust.codeOf ((Rust.withCode shopTrees).drop 4) := codeOf_cons_of_none rfl rfl rfl
  have empty : (Rust.codeOf []).isEmpty = true := by
    rw [codeOf_nil]
    rfl
  have body : Rust.codeOf ((Rust.withCode shopTrees).drop 4) = Rust.codeOf [] :=
    codeOf_cons_of_none rfl rfl empty
  rw [first, keyword, name, body, codeOf_nil]

def shopSource : Rust.SourceFile :=
  ⟨[.attribute "program", .node (.module "a" [])], [.block []]⟩

theorem parse_shop : Rust.SourceFile.parse "#[program]mod a{}" = shopSource := by
  have plain : Rust.dropInterpreterLine (Rust.dropByteOrderMark "#[program]mod a{}".toList) =
      "#[program]mod a{}".toList := rfl
  unfold Rust.SourceFile.parse
  rw [plain, treesOfText_shop]
  change Rust.SourceFile.mk (Rust.itemsOfTrees shopTrees) (Rust.codeOfTrees shopTrees) = _
  rw [itemsOfTrees_shop, codeOfTrees_shop]
  rfl

theorem analyze_shop : Program.analyze shopSource none none = .ok ⟨"a", [], [], none⟩ := by
  have silent : Program.declaredLiteral none shopSource = none := by
    rw [Program.declaredLiteral_eq]
    rfl
  unfold Program.analyze
  rw [silent]
  rfl

theorem loadProgram_shop :
    loadProgram shop.files shop.directory "lib.rs" none = .ok ⟨"a", none, []⟩ := by
  have read : loadSource shop.files shop.directory .sourceMissing "lib.rs" =
      .ok (Rust.SourceFile.parse "#[program]mod a{}") := rfl
  rw [loadProgram_eq, read, parse_shop]
  change ((Program.analyze shopSource none none).map (·.idl)).mapError _ = _
  rw [analyze_shop]
  rfl

/-- The first source is a program; it is generated, unless another source is missing. -/
theorem run_settled_shop :
    (∃ text, (Command.snapshots ["lib.rs", "gone.rs"] [] none false).run.perform shop =
      (.ok 1, { shop with events := [.text .err text] })) ∧
    (Command.snapshots ["lib.rs"] [] none false).run.perform shop =
      (.ok 0, { shop with events :=
        [.text .out (Snapshot.codeOf .standard ⟨[⟨"a", none, []⟩]⟩)] }) := by
  have missing : Command.Refused (.snapshots ["lib.rs", "gone.rs"] [] none false) shop
      (.sourceMissing (Workspace.Path.ofText "gone.rs")) := by
    refine .program 1 _ (Nat.zero_le _) ?_ rfl
    intro k hk
    obtain rfl : k = 0 := by omega
    exact ⟨_, congrArg some loadProgram_shop⟩
  have loaded : Command.Loaded (.snapshots ["lib.rs"] [] none false) shop
      ⟨[⟨"a", none, []⟩]⟩ [] := by
    refine ⟨Nat.zero_le _, fun place => ?_, rfl⟩
    cases place with
    | zero => exact congrArg some loadProgram_shop
    | succ place => rfl
  obtain ⟨-, two⟩ := run_settled (.snapshots ["lib.rs", "gone.rs"] [] none false) shop
  obtain ⟨refusals, -⟩ := two .standard [] rfl
  obtain ⟨text, -, refused, -⟩ := refusals _ missing
  obtain ⟨-, one⟩ := run_settled (.snapshots ["lib.rs"] [] none false) shop
  obtain ⟨-, -, -, printed⟩ := one .standard [] rfl
  refine ⟨⟨text, refused⟩, (printed trivial rfl _).mpr ?_⟩
  exact ⟨_, _, [], loaded, .nil, rfl, rfl⟩

end AnchorHarness.CommandLine
