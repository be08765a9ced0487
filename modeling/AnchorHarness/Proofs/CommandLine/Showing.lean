import AnchorHarness.Proofs.CommandLine.Outcome
import AnchorHarness.Proofs.Console.Drawing

/-!
# Showing programs

The programs of a run are drawn one after the other, each as a panel and a table. What comes before
the first event that cannot be drawn stays on the console; that one and all behind it do not get
there, and then nothing is exported either.
-/

namespace AnchorHarness.CommandLine

open Console (Event Showable chunks render showable_append showable_between showable_chunks_nil)
open Program (Idl ProgramIdl analyze)
open SessionM (draw perform_bind perform_forM_draw perform_forM_draw_of_fault perform_say
  perform_writeFile)

/-- What is put on the console for a program, if all of it can be drawn. -/
def programEvents (p : ProgramIdl) : List Event :=
  [.text .out "\n", programPanel p, instructionTable p]

def idlEvents (idl : Idl) : List Event := idl.programs.flatMap programEvents

theorem showProgram_eq (p : ProgramIdl) : showProgram p = (programEvents p).forM draw := by
  unfold showProgram programEvents
  rw [List.forM_eq_forM, List.forM_cons, List.forM_cons, List.forM_cons, List.forM_nil,
    bind_pure_unit]
  rfl

theorem forM_showProgram (ps : List ProgramIdl) :
    ps.forM showProgram = (ps.flatMap programEvents).forM draw := by
  induction ps with
  | nil => rfl
  | cons p ps ih =>
    rw [List.forM_eq_forM, List.forM_eq_forM] at ih ⊢
    rw [List.flatMap_cons, List.forM_cons, List.forM_append, ih, showProgram_eq]
    rfl

/-! ### Runs -/

/-- An export comes behind what is on the console. -/
theorem prefix_events_exportIdl (idl : Idl) (output : String) (s : Session) :
    s.events <+: ((exportIdl idl output).perform s).2.events := by
  unfold exportIdl
  rw [perform_bind, perform_writeFile]
  cases Workspace.writeFile s.files s.directory (Workspace.Path.literal output) idl.json.text with
  | error fault => exact List.prefix_rfl
  | ok files =>
    dsimp only
    rw [perform_say]
    cases Console.message ("\n[dim]IDL exported to: " ++ output ++ "[/dim]") with
    | ok text => exact List.prefix_append _ _
    | error fault => exact List.prefix_rfl

/-- How a run on loaded programs ends, and what it puts on the console. -/
structure ProgramsShown (s : Session) (idl : Idl) (output : Option String)
    (run : Except Interruption Nat × Session) : Prop where
  drawn : (∀ e ∈ idlEvents idl, e.fault? = none) → s.events ++ idlEvents idl <+: run.2.events
  finished : (∀ e ∈ idlEvents idl, e.fault? = none) → namedFile output = none →
    run = (.ok 0, { s with events := s.events ++ idlEvents idl })
  interrupted : ∀ before e after fault, idlEvents idl = before ++ e :: after →
    (∀ d ∈ before, d.fault? = none) → e.fault? = some fault →
    run = (.error (.markup fault), { s with events := s.events ++ before })

section

variable {s : Session} {sources entries : List String} {output : Option String} {idl : Idl}

theorem perform_analyzePrograms
    (loaded : loadPrograms s.files s.directory sources entries = .ok idl) :
    (analyzePrograms sources entries output).perform s =
      (do
        (idlEvents idl).forM draw
        match namedFile output with
        | some name => exportIdl idl name
        | none => pure ()
        return 0 : SessionM Nat).perform s := by
  have steps : (analyzePrograms sources entries output).perform s =
      (withLoaded .out (loadPrograms s.files s.directory sources entries) fun idl => do
        idl.programs.forM showProgram
        match namedFile output with
        | some name => exportIdl idl name
        | none => pure ()
        return 0).perform s := rfl
  rw [steps, loaded, withLoaded, forM_showProgram]
  rfl

theorem programsShown (loaded : loadPrograms s.files s.directory sources entries = .ok idl) :
    ProgramsShown s idl output ((analyzePrograms sources entries output).perform s) where
  drawn drawn := by
    rw [perform_analyzePrograms loaded, perform_bind, perform_forM_draw drawn]
    dsimp only
    cases namedFile output with
    | none => exact List.prefix_rfl
    | some name =>
      dsimp only
      rw [perform_bind]
      have front := prefix_events_exportIdl idl name
        { s with events := s.events ++ idlEvents idl }
      generalize (exportIdl idl name).perform
        { s with events := s.events ++ idlEvents idl } = exported at front ⊢
      obtain ⟨result, t⟩ := exported
      cases result <;> exact front
  finished drawn unnamed := by
    rw [perform_analyzePrograms loaded, perform_bind, perform_forM_draw drawn, unnamed]
    rfl
  interrupted before e after fault split drawn failed := by
    rw [perform_analyzePrograms loaded, perform_bind, split,
      perform_forM_draw_of_fault drawn failed]

/-- Each program of a run is what analysing its source yields. -/
theorem exists_analysis_of_loaded
    (loaded : loadPrograms s.files s.directory sources entries = .ok idl) {place : Nat}
    {p : ProgramIdl} (hp : idl.programs[place]? = some p) :
    ∃ source code entry a, sources[place]? = some source ∧
      loadSource s.files s.directory .sourceMissing source = .ok code ∧
      loadEntry s.files s.directory entries[place]? = .ok entry ∧
      analyze code entry none = .ok a ∧ p = a.idl := by
  have there := (loadPrograms_eq_ok.mp loaded).2 place
  rw [hp, programAt] at there
  obtain ⟨source, hs, read⟩ := Option.map_eq_some_iff.mp there
  rw [loadProgram_eq] at read
  obtain ⟨code, hc, read⟩ := Fallible.bind_eq_ok.mp read
  obtain ⟨entry, he, read⟩ := Fallible.bind_eq_ok.mp read
  obtain ⟨a, ha, rfl⟩ := Fallible.map_eq_ok.mp (Fallible.mapError_eq_ok.mp read)
  exact ⟨source, code, entry, a, hs, hc, he, ha, rfl⟩

end

/-! ### The panel -/

/-- What a panel says, in markup. -/
def panelContent (name address count : String) : String :=
  "[bold cyan]" ++ name ++ "[/bold cyan]\n\n" ++
    "[dim]Program ID: " ++ address ++ "[/dim]\n" ++
    "[dim]Instructions: " ++ count ++ "[/dim]"

theorem programPanel_eq (p : ProgramIdl) :
    ∃ address, (p.address = some address ∨ address = "Not specified") ∧
      programPanel p = .panel (panelContent p.name address (toString p.instructions.length))
        "[bold]Program Analysis[/bold]" := by
  unfold programPanel
  cases p.address with
  | none => exact ⟨_, .inr rfl, rfl⟩
  | some text =>
    dsimp only
    split_ifs with empty
    · exact ⟨_, .inr rfl, rfl⟩
    · exact ⟨text, .inl rfl, rfl⟩

/-- A text without opening brackets and backslashes, so that nothing in it is taken for a tag. -/
def IsInside (cs : List Char) : Prop := '[' ∉ cs ∧ '\\' ∉ cs

instance (cs : List Char) : Decidable (IsInside cs) := inferInstanceAs (Decidable (_ ∧ _))

theorem isInside_of_forall {cs : List Char} {p : Char → Prop} (each : ∀ c ∈ cs, p c)
    (bracket : ¬p '[') (slash : ¬p '\\') : IsInside cs :=
  ⟨fun there => bracket (each _ there), fun there => slash (each _ there)⟩

theorem IsInside.append {cs ds : List Char} (h : IsInside cs) (h' : IsInside ds) :
    IsInside (cs ++ ds) := by
  refine ⟨?_, ?_⟩
  · exact fun there => (List.mem_append.mp there).elim h.1 h'.1
  · exact fun there => (List.mem_append.mp there).elim h.2 h'.2

theorem showable_dim {word rest : List Char} (inside : IsInside word)
    (h : Showable [] (chunks rest)) : Showable [] (chunks
      ('[' :: 'd' :: ("im".toList ++ ']' :: (word ++
        '[' :: '/' :: ('d' :: "im".toList ++ ']' :: rest))))) :=
  showable_between (by decide) (by decide) (by decide) (by decide) (by decide) inside.1 inside.2 h

theorem exists_render_panelContent {name address count : String} (hn : IsInside name.toList)
    (ha : IsInside address.toList) (hc : IsInside count.toList) :
    ∃ text, render (panelContent name address count) = .ok text := by
  refine Console.exists_render_of_showable ?_
  have split : (panelContent name address count).toList =
      '[' :: 'b' :: ("old cyan".toList ++ ']' :: (name.toList ++
        '[' :: '/' :: ('b' :: "old cyan".toList ++ ']' :: ("\n\n".toList ++
          '[' :: 'd' :: ("im".toList ++ ']' :: (("Program ID: ".toList ++ address.toList) ++
            '[' :: '/' :: ('d' :: "im".toList ++ ']' :: ("\n".toList ++
              '[' :: 'd' :: ("im".toList ++ ']' :: (("Instructions: ".toList ++ count.toList) ++
                '[' :: '/' :: ('d' :: "im".toList ++ ']' :: []))))))))))) := by
    unfold panelContent
    simp
  have identified : IsInside ("Program ID: ".toList ++ address.toList) :=
    IsInside.append (by decide) ha
  have counted : IsInside ("Instructions: ".toList ++ count.toList) :=
    IsInside.append (by decide) hc
  rw [split]
  refine showable_between (by decide) (by decide) (by decide) (by decide) (by decide) hn.1 hn.2 ?_
  refine showable_append (by decide) (by decide) (showable_dim identified ?_)
  refine showable_append (by decide) (by decide) (showable_dim counted ?_)
  exact showable_chunks_nil []

theorem isDigit_of_mem_number {n : Nat} {c : Char} (there : c ∈ (toString n).toList) :
    c.isDigit = true :=
  Nat.isDigit_of_mem_toDigits (by decide) (by decide) (Nat.toList_repr ▸ there)

theorem isInside_number (n : Nat) : IsInside (toString n).toList :=
  isInside_of_forall (fun _ there => isDigit_of_mem_number there) (by decide) (by decide)

theorem fault?_programPanel {p : ProgramIdl} (name : IsInside p.name.toList)
    (address : ∀ text, p.address = some text → IsInside text.toList) :
    (programPanel p).fault? = none := by
  obtain ⟨text, given, panel⟩ := programPanel_eq p
  have inside : IsInside text.toList := by
    obtain given | rfl := given
    · exact address text given
    · decide
  have title : ∃ text, render "[bold]Program Analysis[/bold]" = .ok text := by
    refine Console.exists_render_of_showable ?_
    have split : "[bold]Program Analysis[/bold]".toList =
        '[' :: 'b' :: ("old".toList ++ ']' :: ("Program Analysis".toList ++
          '[' :: '/' :: ('b' :: "old".toList ++ ']' :: []))) := by decide
    rw [split]
    exact showable_between (by decide) (by decide) (by decide) (by decide) (by decide) (by decide)
      (by decide) (showable_chunks_nil [])
  rw [panel, Event.fault?_eq_none_iff]
  intro markup there
  rw [Event.markups, List.mem_cons, List.mem_singleton] at there
  obtain rfl | rfl := there
  · exact title
  · exact exists_render_panelContent name inside (isInside_number _)

end AnchorHarness.CommandLine
