import AnchorHarness.Proofs.CommandLine.Showing
import AnchorHarness.Proofs.FieldOrder
import AnchorHarness.Proofs.Program.AddressText
import AnchorHarness.Proofs.Rust.WrittenTypes

/-!
# The table of the instructions

A program is shown with a row for every instruction, in order. The cells of a row are markup that is
not escaped. Names are shown as they are, but types may hold brackets, and a type such as `[u8; 32]`
is taken for a tag. If it is taken for a closing tag, as `[/* zero */ u8; 32]` is, then nothing of
the table is shown and the run is interrupted.
-/

namespace AnchorHarness.CommandLine

open Console (ClosesUnopened Event HoldsTag IsOrdinary IsVerbatim render)
open Program (Address Analysis Context Handler Idl ProgramIdl analyze)
open Rust (IsName isNameCharacter)

/-! ### Lists in a cell -/

theorem mem_intercalate {separator : List Char} {parts : List (List Char)} {c : Char}
    (h : c ∈ separator.intercalate parts) : c ∈ separator ∨ ∃ part ∈ parts, c ∈ part := by
  induction parts with
  | nil => simp at h
  | cons part parts ih =>
    cases parts with
    | nil =>
      rw [List.intercalate_singleton] at h
      exact .inr ⟨part, List.mem_singleton.mpr rfl, h⟩
    | cons next parts =>
      rw [List.intercalate_cons_cons, List.mem_append, List.mem_append] at h
      rcases h with (h | h) | h
      · exact .inr ⟨part, List.mem_cons_self .., h⟩
      · exact .inl h
      · obtain h | ⟨other, there, h⟩ := ih h
        · exact .inl h
        · exact .inr ⟨other, List.mem_cons_of_mem _ there, h⟩

theorem infix_intercalate {separator part : List Char} {parts : List (List Char)}
    (h : part ∈ parts) : part <:+: separator.intercalate parts := by
  induction parts with
  | nil => cases h
  | cons first parts ih =>
    cases parts with
    | nil =>
      rw [List.mem_singleton.mp h, List.intercalate_singleton]
    | cons next parts =>
      rw [List.intercalate_cons_cons]
      obtain rfl | h := List.mem_cons.mp h
      · exact ⟨[], separator ++ separator.intercalate (next :: parts), by simp⟩
      · exact (ih h).trans (List.suffix_append _ _).isInfix

theorem listed_eq {names : List String} (filled : ∀ name ∈ names, name ≠ "") :
    listed names = if names = [] then "-" else ", ".intercalate names := by
  cases names with
  | nil => rfl
  | cons name names =>
    have first : name.toList ≠ [] := fun empty =>
      filled name (List.mem_cons_self ..) (String.toList_inj.mp empty)
    have whole : (", ".intercalate (name :: names)).isEmpty = false := by
      have inside : name.toList <:+: (", ".intercalate (name :: names)).toList := by
        rw [String.toList_intercalate]
        exact infix_intercalate (List.mem_map_of_mem (List.mem_cons_self ..))
      rw [Bool.eq_false_iff, ne_eq, String.isEmpty_iff, ← String.toList_inj]
      intro empty
      rw [empty] at inside
      exact first (List.eq_nil_of_infix_nil inside)
    rw [listed, if_neg (List.cons_ne_nil name names)]
    simp only [whole, Bool.false_eq_true, if_false]

theorem infix_listed {names : List String} (filled : ∀ name ∈ names, name ≠ "") {name : String}
    (h : name ∈ names) : name.toList <:+: (listed names).toList := by
  rw [listed_eq filled, if_neg (List.ne_nil_of_mem h), String.toList_intercalate]
  exact infix_intercalate (List.mem_map_of_mem h)

theorem mem_listed {names : List String} {c : Char} (h : c ∈ (listed names).toList) :
    c ∈ ['-', ',', ' '] ∨ ∃ name ∈ names, c ∈ name.toList := by
  unfold listed at h
  dsimp only at h
  split at h
  · rw [show "-".toList = ['-'] from rfl, List.mem_singleton] at h
    exact .inl (by simp [h])
  · rw [String.toList_intercalate] at h
    obtain h | ⟨part, there, h⟩ := mem_intercalate h
    · rw [show ", ".toList = [',', ' '] from rfl] at h
      exact .inl (List.mem_cons_of_mem _ h)
    · obtain ⟨name, hn, rfl⟩ := List.mem_map.mp there
      exact .inr ⟨name, hn, h⟩

/-! ### Rows -/

/-- A parameter with its type, as it stands in the table. -/
def parameterText (p : String × String) : String := p.1 ++ ": " ++ p.2

/-- The parameters joined by commas, or a hyphen if there are none. -/
def parametersCell (h : Handler) : String :=
  if h.parameters = [] then "-" else ", ".intercalate (h.parameters.map parameterText)

def optionalNames (c : Context) : List String :=
  (c.fields.filter Account.Field.isOptional).map (·.name)

/-- The cells of a handler, whose context is given. -/
def rowOf (h : Handler) (c : Context) : List String :=
  [h.name, c.name, toString c.fields.length, parametersCell h, listed (optionalNames c)]

theorem toList_parameterText (p : String × String) :
    (parameterText p).toList = p.1.toList ++ ':' :: ' ' :: p.2.toList := by
  rw [parameterText, String.toList_append, String.toList_append, List.append_assoc]
  rfl

theorem filled_parameterTexts (parameters : List (String × String)) :
    ∀ text ∈ parameters.map parameterText, text ≠ "" := by
  rintro text there rfl
  obtain ⟨p, -, empty⟩ := List.mem_map.mp there
  have colon : ':' ∈ (parameterText p).toList := by simp [toList_parameterText]
  rw [empty] at colon
  cases colon

theorem listed_parameterTexts (h : Handler) :
    listed (h.parameters.map parameterText) = parametersCell h := by
  rw [listed_eq (filled_parameterTexts h.parameters), parametersCell]
  simp only [List.map_eq_nil_iff]

theorem type_infix_parametersCell {h : Handler} {p : String × String} (there : p ∈ h.parameters) :
    p.2.toList <:+: (parametersCell h).toList := by
  have type : p.2.toList <:+: (parameterText p).toList :=
    ⟨p.1.toList ++ [':', ' '], [], by simp [toList_parameterText]⟩
  rw [← listed_parameterTexts]
  exact type.trans (infix_listed (filled_parameterTexts h.parameters) (List.mem_map_of_mem there))

theorem mem_parametersCell {h : Handler} {c : Char} (there : c ∈ (parametersCell h).toList) :
    c ∈ ['-', ',', ' ', ':'] ∨ ∃ p ∈ h.parameters, c ∈ p.1.toList ∨ c ∈ p.2.toList := by
  rw [← listed_parameterTexts] at there
  obtain sign | ⟨text, listed, inside⟩ := mem_listed there
  · exact .inl (List.mem_append_left [':'] sign)
  · obtain ⟨p, hp, rfl⟩ := List.mem_map.mp listed
    rw [toList_parameterText, List.mem_append, List.mem_cons, List.mem_cons] at inside
    rcases inside with front | rfl | rfl | behind
    · exact .inr ⟨p, hp, .inl front⟩
    · exact .inl (by simp)
    · exact .inl (by simp)
    · exact .inr ⟨p, hp, .inr behind⟩

theorem instructionRow_eq {a : Analysis} {h : Handler} {c : Context}
    (hc : a.contextFor? h = some c) :
    instructionRow (FieldOrder.instructionOf a h) = rowOf h c := by
  rw [FieldOrder.instructionOf, FieldOrder.groupOf_eq hc, rowOf, ← listed_parameterTexts]
  rfl

/-! ### What is shown of a row -/

/-- A name as it is written, with its `r#` if it has one. -/
def IsWritten (name : String) : Prop :=
  ∃ cs, IsName cs ∧ (name.toList = cs ∨ name.toList = 'r' :: '#' :: cs)

theorem isOrdinary_of_isNameCharacter {c : Char} (h : isNameCharacter c = true) :
    IsOrdinary c := by
  refine ⟨?_, ?_⟩
  · rintro rfl
    exact absurd h (by decide)
  · intro hidden
    have code : c = Char.ofNat c.toNat := c.ofNat_toNat.symm
    simp only [List.mem_cons, List.not_mem_nil, or_false] at hidden
    rcases hidden with n | n | n | n | n <;> rw [code, n] at h <;> exact absurd h (by decide)

theorem IsWritten.letter {name : String} (h : IsWritten name) {c : Char} (hc : c ∈ name.toList) :
    isNameCharacter c = true ∨ c = '#' := by
  obtain ⟨cs, isName, same | same⟩ := h
  · rw [same] at hc
    exact .inl (isName.letters c hc)
  · rw [same, List.mem_cons, List.mem_cons] at hc
    obtain rfl | rfl | hc := hc
    · exact .inl (by decide)
    · exact .inr rfl
    · exact .inl (isName.letters c hc)

theorem IsWritten.ordinary {name : String} (h : IsWritten name) :
    ∀ c ∈ name.toList, IsOrdinary c := by
  intro c hc
  obtain letter | rfl := h.letter hc
  · exact isOrdinary_of_isNameCharacter letter
  · decide

theorem IsWritten.isInside {name : String} (h : IsWritten name) : IsInside name.toList :=
  isInside_of_forall (fun _ there => h.letter there) (by decide) (by decide)

theorem IsWritten.ne_empty {name : String} (h : IsWritten name) : name ≠ "" := by
  rintro rfl
  obtain ⟨cs, isName, same | same⟩ := h
  · obtain ⟨c, front, he, -⟩ := isName.starts
    rw [← same] at he
    cases he
  · cases same

theorem isOrdinary_sign {c : Char} (h : c ∈ ['-', ',', ' ', ':']) : IsOrdinary c := by
  simp only [List.mem_cons, List.not_mem_nil, or_false] at h
  rcases h with rfl | rfl | rfl | rfl <;> decide

theorem render_listed {names : List String}
    (ordinary : ∀ name ∈ names, ∀ c ∈ name.toList, IsOrdinary c) :
    render (listed names) = .ok (listed names) := by
  refine Console.render_of_ordinary fun c there => ?_
  obtain sign | ⟨name, hn, hc⟩ := mem_listed there
  · exact isOrdinary_sign (List.mem_append_left [':'] sign)
  · exact ordinary name hn c hc

theorem render_number (n : Nat) : render (toString n) = .ok (toString n) := by
  refine Console.render_of_ordinary fun c there => isOrdinary_of_isNameCharacter ?_
  have digit := isDigit_of_mem_number there
  simp only [isNameCharacter, Rust.isDigit, Bool.or_eq_true, Bool.and_eq_true, decide_eq_true_eq]
  simp only [Char.isDigit, Bool.and_eq_true, decide_eq_true_eq] at digit
  exact .inl (.inl (.inl (.inl digit)))

/-- How the cells of an instruction are shown. -/
structure CellsShown (h : Handler) (c : Context) : Prop where
  name : IsWritten h.name → render h.name = .ok h.name
  context : IsWritten c.name → render c.name = .ok c.name
  accounts : render (toString c.fields.length) = .ok (toString c.fields.length)
  optional : (∀ name ∈ optionalNames c, IsWritten name) →
    listed (optionalNames c) =
        (if optionalNames c = [] then "-" else ", ".intercalate (optionalNames c)) ∧
      render (listed (optionalNames c)) = .ok (listed (optionalNames c))
  parameters : render (parametersCell h) = .ok (parametersCell h) ↔
    IsVerbatim (parametersCell h).toList
  -- A bracket of the form of a tag in one type is enough for something to be left out.
  tagged : (∃ p ∈ h.parameters, HoldsTag p.2.toList) →
    ∀ text, render (parametersCell h) = .ok text → text.length < (parametersCell h).length
  bracketless : (∀ p ∈ h.parameters, ∀ c ∈ p.1.toList ++ p.2.toList, IsOrdinary c) →
    render (parametersCell h) = .ok (parametersCell h)
  unclosed : ¬['[', '/'] <:+: (parametersCell h).toList →
    ∃ text, render (parametersCell h) = .ok text
  unopened : ClosesUnopened (parametersCell h).toList →
    ∃ fault, render (parametersCell h) = .error fault

theorem cellsShown (h : Handler) (c : Context) : CellsShown h c where
  name written := Console.render_of_ordinary written.ordinary
  context written := Console.render_of_ordinary written.ordinary
  accounts := render_number _
  optional written :=
    ⟨listed_eq fun name there => (written name there).ne_empty,
      render_listed fun name there => (written name there).ordinary⟩
  parameters := Console.render_eq_self_iff _
  tagged := by
    rintro ⟨p, there, tag⟩ text shown
    have whole := tag.mono (type_infix_parametersCell there)
    simpa only [String.length_toList] using Console.length_render_lt shown whole
  bracketless ordinary := by
    refine Console.render_of_ordinary fun d there => ?_
    obtain sign | ⟨p, hp, hd⟩ := mem_parametersCell there
    · exact isOrdinary_sign sign
    · exact ordinary p hp d (List.mem_append.mpr hd)
  unclosed := Console.exists_render_of_unclosed
  unopened := Console.render_of_unopened

/-! ### What can be drawn -/

/-- The names that the table shows are written as names are. -/
structure HasWrittenNames (a : Analysis) : Prop where
  program : IsWritten a.name
  handlers : ∀ h ∈ a.handlers, IsWritten h.name
  contexts : ∀ c ∈ a.contexts, IsWritten c.name
  optional : ∀ c ∈ a.contexts, ∀ name ∈ optionalNames c, IsWritten name

theorem isInside_address (found : Address) : IsInside found.text.toList := by
  have digits : ∀ c ∈ found.text.toList, c ∈ Program.alphabet := by
    intro c there
    rw [Address.text, String.toList_ofList] at there
    obtain ⟨value, -, rfl⟩ := List.mem_map.mp there
    exact Program.digitOfValue_mem value
  exact isInside_of_forall digits (by decide) (by decide)

section

variable {code : Rust.SourceFile} {entry : Option Rust.SourceFile} {name : Option String}
  {a : Analysis}

/-- An address that is kept holds nothing but digits. -/
theorem isInside_of_address (accepted : analyze code entry name = .ok a) {text : String}
    (given : a.address = some text) : IsInside text.toList := by
  obtain ⟨body, conditions⟩ := (Program.analyze_eq_ok code entry name a).mp accepted
  have addressed := conditions.addressed
  rw [Program.Addressed] at addressed
  split at addressed
  · rw [given] at addressed
    cases addressed
  · obtain ⟨found, -, address⟩ := addressed
    obtain rfl : text = found.text := Option.some.inj (given.symm.trans address)
    exact isInside_address found

theorem exists_row_eq (accepted : analyze code entry name = .ok a) {h : Handler}
    (there : h ∈ a.handlers) : ∃ c ∈ a.contexts, a.contextFor? h = some c ∧
      instructionRow (FieldOrder.instructionOf a h) = rowOf h c := by
  obtain ⟨body, conditions⟩ := (Program.analyze_eq_ok code entry name a).mp accepted
  obtain ⟨-, -, -, c, hc, -⟩ := conditions.resolved.contextFor?_eq_some h there
  exact ⟨c, List.mem_of_find?_eq_some hc, hc, instructionRow_eq hc⟩

/-- Nothing but its parameters can keep a row from being shown. -/
theorem shown_rowOf_iff {h : Handler} {c : Context} (handler : IsWritten h.name)
    (context : IsWritten c.name) (optional : ∀ name ∈ optionalNames c, IsWritten name) :
    (∀ cell ∈ rowOf h c, ∃ text, render cell = .ok text) ↔
      ∃ text, render (parametersCell h) = .ok text := by
  have cells := cellsShown h c
  constructor
  · intro shown
    exact shown _ (by simp [rowOf])
  · intro shown cell inside
    simp only [rowOf, List.mem_cons, List.not_mem_nil, or_false] at inside
    obtain rfl | rfl | rfl | rfl | rfl := inside
    · exact ⟨_, cells.name handler⟩
    · exact ⟨_, cells.context context⟩
    · exact ⟨_, cells.accounts⟩
    · exact shown
    · exact ⟨_, (cells.optional optional).2⟩

theorem fault?_instructionTable_iff (p : ProgramIdl) :
    (instructionTable p).fault? = none ↔
      ∀ row ∈ p.instructions.map instructionRow, ∀ cell ∈ row, ∃ text, render cell = .ok text := by
  refine Console.fault?_table_eq_none_iff ?_ ?_
  · intro row there
    obtain ⟨pair, -, rfl⟩ := List.mem_map.mp there
    exact Nat.le_refl 5
  · intro markup there
    have ordinary : ["Instructions", "Name", "Context", "Accounts", "Args", "Optional"].all
        (fun markup => markup.toList.all fun c => IsOrdinary c) = true := by decide
    have here := List.all_eq_true.mp (List.all_eq_true.mp ordinary markup there)
    exact ⟨markup, Console.render_of_ordinary fun c hc => of_decide_eq_true (here c hc)⟩

/-- A program is shown just if the parameters of each of its handlers can be. -/
theorem drawn_programEvents_iff (accepted : analyze code entry name = .ok a)
    (written : HasWrittenNames a) : (∀ e ∈ programEvents a.idl, e.fault? = none) ↔
      ∀ h ∈ a.handlers, ∃ text, render (parametersCell h) = .ok text := by
  have panel : (programPanel a.idl).fault? = none :=
    fault?_programPanel written.program.isInside fun text given =>
      isInside_of_address accepted given
  have line : (Event.text .out "\n").fault? = none := rfl
  have rows : a.idl.instructions = a.handlers.map (FieldOrder.instructionOf a) := rfl
  simp only [programEvents, List.forall_mem_cons, List.not_mem_nil, false_imp_iff, implies_true,
    panel, line, true_and, and_true]
  rw [fault?_instructionTable_iff, rows, List.map_map, List.forall_mem_map]
  refine forall₂_congr fun h there => ?_
  obtain ⟨c, hc, -, row⟩ := exists_row_eq accepted there
  rw [Function.comp_apply, row]
  exact shown_rowOf_iff (written.handlers h there) (written.contexts c hc) (written.optional c hc)

end

/-- A run shows its programs in the order of their sources, each with a table. If all of that can be
drawn, the run yields 0 or goes on to export the programs; else the first fault interrupts it, and
what comes before is all that is shown. The table of an analysis has the cells of its handlers in
order. Names and numbers are shown as they are; parameters are just if nothing in them means
anything else than itself, so never if one of their types holds a bracket of the form of a tag.
Nothing but closing tags keeps a cell from being shown, and one that comes before all other brackets
does; the table is then not drawn at all. -/
theorem instructionTable_settled (s : Session) (sources entries : List String)
    (output : Option String) :
    (∀ idl, loadPrograms s.files s.directory sources entries = .ok idl →
      ProgramsShown s idl output ((Command.analyze sources entries output).run.perform s) ∧
        ∀ (place : Nat) p, idl.programs[place]? = some p → ∃ source code entry a,
          sources[place]? = some source ∧
          loadSource s.files s.directory .sourceMissing source = .ok code ∧
          loadEntry s.files s.directory entries[place]? = .ok entry ∧
          analyze code entry none = .ok a ∧ p = a.idl) ∧
    ∀ code entry name a, analyze code entry name = .ok a → ∃ rows,
      instructionTable a.idl =
          .table "Instructions" ["Name", "Context", "Accounts", "Args", "Optional"] rows ∧
        List.Forall₂ (fun h row => ∃ c, a.contextFor? h = some c ∧ row = rowOf h c ∧
          CellsShown h c) a.handlers rows ∧
        ((instructionTable a.idl).fault? = none ↔
          ∀ row ∈ rows, ∀ cell ∈ row, ∃ text, render cell = .ok text) ∧
        (HasWrittenNames a → ((∀ e ∈ programEvents a.idl, e.fault? = none) ↔
          ∀ h ∈ a.handlers, ∃ text, render (parametersCell h) = .ok text)) := by
  refine ⟨?_, ?_⟩
  · intro idl loaded
    exact ⟨programsShown loaded, fun place p hp => exists_analysis_of_loaded loaded hp⟩
  · intro code entry name a accepted
    refine ⟨(a.handlers.map (FieldOrder.instructionOf a)).map instructionRow, rfl, ?_,
      fault?_instructionTable_iff a.idl, drawn_programEvents_iff accepted⟩
    rw [List.map_map, List.forall₂_map_right_iff, List.forall₂_same]
    intro h there
    obtain ⟨c, -, hc, row⟩ := exists_row_eq accepted there
    exact ⟨c, hc, row, cellsShown h c⟩

/-! ### An array among the parameters -/

def openType : Rust.TypeRef := ⟨"Open", .typeIdentifier, ["Open"], []⟩

def seedSource : Rust.SourceFile where
  items := [.attribute "program", .node (.module "vault" [.node (.function "open"
      [⟨"ctx", ⟨"Context<Open>", .genericType, ["Context"], [openType]⟩⟩,
        ⟨"seed", ⟨"[u8; 32]", .arrayType, [], []⟩⟩,
        ⟨"owner", ⟨"Pubkey", .typeIdentifier, ["Pubkey"], []⟩⟩])]),
    .attribute "derive(Accounts)",
    .node (.struct "Open" (.named [.node (.field ⟨"owner", Program.ownerType⟩)]))]
  code := []

def seedHandler : Handler := ⟨"open", openType, [("seed", "[u8; 32]"), ("owner", "Pubkey")]⟩

def seedAnalysis : Analysis where
  name := "vault"
  handlers := [seedHandler]
  contexts := [⟨"Open", "Open", [], [⟨"owner", "Signer<'info>", "Signer<'info>",
    .signer, none, false, false, false, false, false⟩]⟩]
  address := none

theorem analyze_seedSource : analyze seedSource none none = .ok seedAnalysis := by
  have silent : Program.declaredLiteral none seedSource = none := by
    rw [Program.declaredLiteral_eq]
    rfl
  unfold analyze
  rw [silent]
  rfl

theorem render_seed :
    render "seed: [u8; 32], owner: Pubkey" = .ok "seed: , owner: Pubkey" := by
  have split : "seed: [u8; 32], owner: Pubkey".toList =
      "seed: ".toList ++ '[' :: 'u' :: ("8; 32".toList ++ ']' :: ", owner: Pubkey".toList) := rfl
  rw [render, split, Console.chunks_append (by decide) (by decide),
    Console.chunks_tag (by decide) (by decide) (by decide),
    Console.foldr_consPlain_bracket (by decide), Console.chunks_of_not_mem (by decide) (by decide)]
  rfl

/-- The comment in front of the type makes it a closing tag. -/
def zeroText : String :=
  "#[program] mod vault \x7b fn open(ctx: Context<Open>, seed: [/* zero */ u8; 32]) \x7b\x7d \x7d " ++
    "struct Open<'info> \x7b owner: Signer<'info> \x7d"

def zeroSession : Session := ⟨Workspace.FileTree.empty.plant ["lib.rs"] zeroText, [], [], []⟩

def zeroProgram : ProgramIdl :=
  ⟨"vault", none, [(⟨"open", [("seed", "[/* zero */ u8; 32]")]⟩, ⟨"Open", "Open",
    [⟨"owner", "Signer<'info>", "Signer<'info>", .signer, none, false, false, false, false,
      false⟩]⟩)]⟩

theorem loadPrograms_zeroSession :
    loadPrograms zeroSession.files zeroSession.directory ["lib.rs"] [] = .ok ⟨[zeroProgram]⟩ := by
  have read : (loadPrograms zeroSession.files zeroSession.directory ["lib.rs"] []).toOption =
      some ⟨[zeroProgram]⟩ := by decide +kernel
  cases loaded : loadPrograms zeroSession.files zeroSession.directory ["lib.rs"] [] with
  | ok idl =>
    rw [loaded] at read
    exact congrArg Except.ok (Option.some.inj read)
  | error e =>
    rw [loaded] at read
    cases read

theorem isWritten_of_letters {name : String} {c : Char} {cs : List Char}
    (same : name.toList = c :: cs) (starts : Rust.isDigit c = false)
    (letters : (c :: cs).all isNameCharacter = true) : IsWritten name :=
  ⟨c :: cs, ⟨⟨c, cs, rfl, starts⟩, List.all_eq_true.mp letters⟩, .inl same⟩

theorem hasWrittenNames_seedAnalysis : HasWrittenNames seedAnalysis where
  program := isWritten_of_letters rfl rfl rfl
  handlers := List.forall_mem_singleton.mpr (isWritten_of_letters rfl rfl rfl)
  contexts := List.forall_mem_singleton.mpr (isWritten_of_letters rfl rfl rfl)
  optional := List.forall_mem_singleton.mpr nofun

/-- The type of the seed is left out, so that the cell does not say what the seed is. With the
comment in it, nothing of the table is shown. -/
theorem instructionTable_settled_seedSource :
    (Command.analyze ["lib.rs"] [] none).run.perform shop =
        (.ok 0, { shop with events := programEvents ⟨"a", none, []⟩ }) ∧
      analyze seedSource none none = .ok seedAnalysis ∧
      instructionTable seedAnalysis.idl =
        .table "Instructions" ["Name", "Context", "Accounts", "Args", "Optional"]
          [["open", "Open", "1", "seed: [u8; 32], owner: Pubkey", "-"]] ∧
      render "open" = .ok "open" ∧
      (∃ text, render "seed: [u8; 32], owner: Pubkey" = .ok text ∧
        text.length < "seed: [u8; 32], owner: Pubkey".length) ∧
      (∀ e ∈ programEvents seedAnalysis.idl, e.fault? = none) ∧
      (Command.analyze ["lib.rs"] [] (some "idl.json")).run.perform zeroSession =
        (.error (.markup (.unmatched "/* zero */ u8; 32" 6)),
          { zeroSession with events := [.text .out "\n", programPanel zeroProgram] }) := by
  obtain ⟨run, tables⟩ := instructionTable_settled shop ["lib.rs"] [] none
  have loaded : loadPrograms shop.files shop.directory ["lib.rs"] [] =
      .ok ⟨[⟨"a", none, []⟩]⟩ := by
    refine loadPrograms_eq_ok.mpr ⟨Nat.zero_le _, fun place => ?_⟩
    cases place with
    | zero => exact congrArg some loadProgram_shop
    | succ place => rfl
  have drawn : ∀ e ∈ idlEvents ⟨[⟨"a", none, []⟩]⟩, e.fault? = none := by decide +kernel
  obtain ⟨rows, table, cells, -, program⟩ := tables seedSource none none seedAnalysis analyze_seedSource
  obtain ⟨row, others, ⟨c, hc, rfl, shown⟩, none, rfl⟩ := List.forall₂_cons_left_iff.mp cells
  obtain rfl := List.forall₂_nil_left_iff.mp none
  have context : c = seedAnalysis.contexts.head (by simp [seedAnalysis]) := (Option.some.inj hc).symm
  subst context
  have written : IsWritten "open" := isWritten_of_letters rfl rfl rfl
  have tag : HoldsTag "[u8; 32]".toList :=
    ⟨[], "u8; 32".toList, [], rfl, 'u', "8; 32".toList, by decide⟩
  obtain ⟨zeroRun, -⟩ := instructionTable_settled zeroSession ["lib.rs"] [] (some "idl.json")
  have front : ∀ e ∈ [Event.text .out "\n", programPanel zeroProgram], e.fault? = Option.none := by
    decide +kernel
  have fault : (instructionTable zeroProgram).fault? =
      some (.unmatched "/* zero */ u8; 32" 6) := by decide +kernel
  exact ⟨(run _ loaded).1.finished drawn rfl, analyze_seedSource, table, shown.name written,
    ⟨_, render_seed, shown.tagged ⟨("seed", "[u8; 32]"), by simp [seedHandler], tag⟩ _ render_seed⟩,
    (program hasWrittenNames_seedAnalysis).mpr (List.forall_mem_singleton.mpr ⟨_, render_seed⟩),
    (zeroRun _ loadPrograms_zeroSession).1.interrupted _ _ [] _ rfl front fault⟩

end AnchorHarness.CommandLine
