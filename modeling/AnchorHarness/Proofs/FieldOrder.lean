import AnchorHarness.Harness.Module
import AnchorHarness.Proofs.Program.Acceptance
import AnchorHarness.Proofs.Snapshot.Code
import AnchorHarness.Proofs.Snapshot.Sharing

/-!
# The order of the accounts of an instruction

The fields of a context struct are kept in order through the whole generation: the description of
the program and its document, the struct that the snapshot of the instruction stands for, the code
that fills this struct, and the harness. `InOrder` lists these places, and `analyze_inOrder` says
which struct it is whose fields stand there.
-/

namespace AnchorHarness.FieldOrder

open Account (Field)
open Occurrence (firsts)
open Program
open Rust (SourceFile StructIndex)
open Snapshot (Struct Step Command contextKey typeNameFor structFor structOf snapshotsOf StandsAt)
open Text (indent block beginWith)

/-! ### Where the names stand -/

/-- The instruction of a handler, with its group. -/
def instructionOf (a : Analysis) (h : Handler) : Instruction × AccountGroup :=
  (⟨h.name, h.parameters⟩, groupOf a h)

/-- The names of the fields of the struct that a handler's context is looked up as. -/
def ownNames? (index : StructIndex) (h : Handler) : Option (List String) :=
  (index.lookup h.contextName).bind fun d =>
    match d.body with
    | .named members => some ((Rust.declaredFields members).map fun f => f.2.name)
    | .unnamed => none

def member? (key : String) : Json → Option Json
  | .object members => (members.find? fun m => m.1 = key).map Prod.snd
  | _ => none

def elements? : Json → Option (List Json)
  | .array elements => some elements
  | _ => none

/-- The names of the accounts of the instruction at a place of a program's document. -/
def accountNames? (document : Json) (place : Nat) : Option (List Json) := do
  let instructions ← (← member? "instructions" document) |> elements?
  let group ← member? "accounts" (← instructions[place]?)
  let accounts ← (← member? "accounts" group) |> elements?
  accounts.mapM (member? "name")

def bound? : Command → Option String
  | .bind field _ _ => some field
  | .bindTodo field => some field
  | _ => none

/-- The fields that a command builds the struct from, the marker apart. -/
def built? : Command → Option (List String)
  | .build fields => some fields
  | .buildEmpty => some []
  | _ => none

/-- Lines in braces behind an opening; the braces stand beside it if there are none. -/
def braced (opening : String) (lines : List String) : List String :=
  if lines.isEmpty then [opening ++ " \x7b\x7d"] else [opening ++ " \x7b"] ++ lines ++ ["\x7d"]

/-- The code that fills a struct binds the given names in order, and builds the struct from them. -/
structure FilledInOrder (config : Config) (d : Struct) (names : List String) : Prop where
  text : Snapshot.fillingLines config d =
    Snapshot.functionLines d.name (Snapshot.fillingCode config d)
  bindings : (Snapshot.fillingCode config d).filterMap bound? = names
  result : (Snapshot.fillingCode config d).filterMap built? = [names]

/-- The given names are those of the accounts, in order, wherever the instruction of the handler at
a place is written down. -/
structure InOrder (config : Config) (bindings : Harness.Bindings) (a : Analysis) (place : Nat)
    (h : Handler) (names : List String) : Prop where
  group : a.idl.instructions[place]? = some (instructionOf a h) ∧
    (instructionOf a h).2.fields.map Field.name = names
  document : accountNames? a.idl.json place = some (names.map Json.string)
  snapshot : ∃ d,
    StandsAt (snapshotsOf config a.idl) a.idl.instructions place (instructionOf a h) d ∧
    d.fields.map Prod.fst = names ∧ d.plan.map Step.field = names ∧ FilledInOrder config d names ∧
    ∀ name, structFor name (instructionOf a h).2 =
      ⟨name, d.identity, d.contextName, d.fields, d.plan, d.composites⟩
  -- Behind the enum come three structs for each instruction; the second one has the accounts.
  accounts : ∃ declaration,
    (Harness.declarationsOf bindings a.idl)[3 * place + 2]? = some declaration ∧
      ∀ module, declaration.lines module = ["#[derive(Arbitrary, Clone)]"] ++
        braced ("pub struct " ++ ((instructionOf a h).1.typeName ++ "Accounts"))
          (names.map fun name => indent ++ "pub " ++ name ++ ": " ++ Harness.accountId ++ ",") ++
        [""]
  -- Behind all structs comes the code of each instruction, and in it the literal, two steps deep.
  literal : ∃ declaration,
    (Harness.declarationsOf bindings a.idl)[3 * a.handlers.length + 1 + place]? =
        some declaration ∧
      ∀ module, block (block (beginWith "let acc_meta = "
        (braced (module ++ "::accounts::" ++ (instructionOf a h).1.typeName)
          (names.map fun name => indent ++ name ++ ": " ++ Harness.placeholder ++ ",")))) <:+:
            declaration.lines module

/-! ### The description -/

theorem classify_name {name : String} {ty : Rust.TypeRef} {attributes : List String} {f : Field}
    (h : Account.classify name ty attributes = .ok f) : f.name = name := by
  obtain ⟨shape, -, rfl⟩ := Fallible.map_eq_ok.mp h
  rfl

theorem map_classified {declared : List (List String × Rust.FieldDeclaration)} {fields : List Field}
    (h : List.Forall₂ Classifies declared fields) :
    declared.map (fun f => f.2.name) = fields.map Field.name := by
  induction h with
  | nil => rfl
  | cons hc _ ih => rw [List.map_cons, List.map_cons, ih, classify_name hc]

theorem ownNames?_of_resolves {index : StructIndex} {h : Handler} {c : Context}
    (r : Resolves index h c) : ownNames? index h = some (c.fields.map Field.name) := by
  obtain ⟨d, members, hl, hb, hf, -, -, -⟩ := r
  rw [ownNames?, hl, Option.bind_some, hb]
  simp only [map_classified hf]

theorem groupOf_eq {a : Analysis} {h : Handler} {c : Context} (hc : a.contextFor? h = some c) :
    groupOf a h = ⟨c.name, c.identity, c.fields⟩ := by
  rw [groupOf, hc]

theorem contextKey_instructionOf {a : Analysis} {h : Handler} {c : Context}
    (hc : a.contextFor? h = some c) : contextKey (instructionOf a h) = h.contextIdentity := by
  have identity : c.identity = h.contextIdentity := by simpa using List.find?_some hc
  rw [contextKey, instructionOf, groupOf_eq hc, identity]

theorem accountNames?_eq (a : Analysis) (place : Nat) (h : Handler)
    (hp : a.handlers[place]? = some h) :
    accountNames? a.idl.json place =
      some ((groupOf a h).fields.map fun f => Json.string f.name) := by
  have at_place : (a.idl.instructions.map instructionJson)[place]? =
      some (instructionJson (instructionOf a h)) := by
    rw [List.getElem?_map, Analysis.idl, List.getElem?_map, hp]
    rfl
  have names : (((groupOf a h).fields.map fieldJson).mapM (member? "name")) =
      some ((groupOf a h).fields.map fun f => Json.string f.name) := by
    induction (groupOf a h).fields with
    | nil => rfl
    | cons f fields ih =>
      rw [List.map_cons, List.mapM_cons, ih]
      rfl
  have instructions : member? "instructions" a.idl.json =
      some (.array (a.idl.instructions.map instructionJson)) := rfl
  have group : member? "accounts" (instructionJson (instructionOf a h)) =
      some (groupJson (groupOf a h)) := rfl
  have accounts : member? "accounts" (groupJson (groupOf a h)) =
      some (.array ((groupOf a h).fields.map fieldJson)) := rfl
  simp [accountNames?, instructions, elements?, at_place, group, accounts, names]

/-! ### The snapshot -/

theorem fields_structFor (name : String) (group : AccountGroup) :
    (structFor name group).fields.map Prod.fst = group.fields.map Field.name := by
  simp [structFor, Function.comp_def]

theorem plan_structFor (name : String) (group : AccountGroup) :
    (structFor name group).plan.map Step.field = group.fields.map Field.name := by
  simp [structFor, Function.comp_def, Snapshot.stepFor]

theorem bound?_command (sentinel : String) (s : Step) :
    bound? ((Snapshot.statementFor s).command sentinel) = some s.field := by
  obtain ⟨field, mode, optional⟩ := s
  cases mode <;> cases optional <;> rfl

theorem built?_command (sentinel : String) (s : Step) :
    built? ((Snapshot.statementFor s).command sentinel) = none := by
  obtain ⟨field, mode, optional⟩ := s
  cases mode <;> cases optional <;> rfl

theorem filledInOrder (config : Config) (d : Struct) (names : List String)
    (hf : d.fields.map Prod.fst = names) (hp : d.plan.map Step.field = names) :
    FilledInOrder config d names where
  text := Snapshot.fillingLines_eq config d
  bindings := by
    have opening : (if d.slots = 0 then [] else [Command.openCursor]).filterMap bound? = [] := by
      split <;> rfl
    have last : [if d.fields.isEmpty then Command.buildEmpty
        else .build (d.fields.map (·.1))].filterMap bound? = [] := by
      split <;> rfl
    rw [Snapshot.fillingCode, List.filterMap_append, List.filterMap_append, opening, last,
      List.filterMap_map, List.nil_append, List.append_nil, ← hp]
    simp only [Function.comp_def, bound?_command, List.filterMap_eq_map']
  result := by
    have opening : (if d.slots = 0 then [] else [Command.openCursor]).filterMap built? = [] := by
      split <;> rfl
    have last : [if d.fields.isEmpty then Command.buildEmpty
        else .build (d.fields.map (·.1))].filterMap built? = [names] := by
      rw [← hf]
      cases d.fields <;> rfl
    rw [Snapshot.fillingCode, List.filterMap_append, List.filterMap_append, opening, last,
      List.filterMap_map]
    simp [built?_command]

/-! ### The harness -/

theorem getElem?_flatMap_of_length {α β : Type} {f : α → List β} {n : Nat}
    (hf : ∀ x, (f x).length = n) {xs : List α} {place : Nat} {x : α} (hx : xs[place]? = some x)
    {i : Nat} (hi : i < n) : (xs.flatMap f)[n * place + i]? = (f x)[i]? := by
  induction xs generalizing place with
  | nil => simp at hx
  | cons y ys ih =>
    rw [List.flatMap_cons]
    cases place with
    | zero =>
      rw [List.getElem?_cons_zero, Option.some.injEq] at hx
      subst hx
      rw [Nat.mul_zero, Nat.zero_add, List.getElem?_append_left (by rw [hf]; exact hi)]
    | succ place =>
      rw [List.getElem?_cons_succ] at hx
      have behind : (f y).length ≤ n * (place + 1) + i := by
        rw [hf, Nat.mul_succ]
        omega
      have same : n * (place + 1) + i - (f y).length = n * place + i := by
        rw [hf, Nat.mul_succ]
        omega
      rw [List.getElem?_append_right behind, same, ih hx]

theorem length_flatMap_structsOf (ps : List (Instruction × AccountGroup)) :
    (ps.flatMap Harness.structsOf).length = 3 * ps.length := by
  induction ps with
  | nil => rfl
  | cons p ps ih =>
    rw [List.flatMap_cons, List.length_append, ih, List.length_cons]
    have three : (Harness.structsOf p).length = 3 := rfl
    omega

/-- Behind the enum come the three structs of each instruction. -/
theorem declarationsOf_structsOf (bindings : Harness.Bindings) (program : ProgramIdl) (place : Nat)
    (p : Instruction × AccountGroup) (hp : program.instructions[place]? = some p) {i : Nat}
    (hi : i < 3) :
    (Harness.declarationsOf bindings program)[3 * place + i + 1]? =
      (Harness.structsOf p)[i]? := by
  have inside : place < program.instructions.length := (List.getElem?_eq_some_iff.mp hp).1
  have counted := length_flatMap_structsOf program.instructions
  rw [Harness.declarationsOf, List.getElem?_cons_succ, List.append_assoc,
    List.getElem?_append_left (by omega),
    getElem?_flatMap_of_length (f := Harness.structsOf) (n := 3) (fun _ => rfl) hp hi]

theorem declarationsOf_struct (bindings : Harness.Bindings) (program : ProgramIdl) (place : Nat)
    (p : Instruction × AccountGroup) (hp : program.instructions[place]? = some p) :
    (Harness.declarationsOf bindings program)[3 * place + 2]? =
      some (.struct (p.1.typeName ++ "Accounts")
        (p.2.fields.map fun f => (f.name, Harness.accountId))) :=
  declarationsOf_structsOf bindings program place p hp (i := 1) (by decide)

theorem declarationsOf_operations (bindings : Harness.Bindings) (program : ProgramIdl)
    (place : Nat) (p : Instruction × AccountGroup) (hp : program.instructions[place]? = some p) :
    (Harness.declarationsOf bindings program)[3 * program.instructions.length + 1 + place]? =
      some (.operations (Harness.operationsOf p)) := by
  have inside : place < program.instructions.length := (List.getElem?_eq_some_iff.mp hp).1
  have counted := length_flatMap_structsOf program.instructions
  have index : 3 * program.instructions.length + 1 + place =
      3 * program.instructions.length + place + 1 := by omega
  rw [Harness.declarationsOf, index, List.getElem?_cons_succ, List.append_assoc,
    List.getElem?_append_right (by omega), counted, Nat.add_sub_cancel_left,
    List.getElem?_append_left (by rw [List.length_map]; exact inside), List.getElem?_map, hp]
  rfl

theorem structLines_eq (name type : String) (names : List String) :
    Harness.structLines name (names.map fun field => (field, type)) =
      ["#[derive(Arbitrary, Clone)]"] ++
        braced ("pub struct " ++ name)
          (names.map fun field => indent ++ "pub " ++ field ++ ": " ++ type ++ ",") ++ [""] := by
  cases names with
  | nil => rfl
  | cons first names => simp [Harness.structLines, braced, Function.comp_def]

theorem literalLines_eq (path : String) (names : List String) :
    Harness.literalLines path names =
      braced path (names.map fun name => indent ++ name ++ ": " ++ Harness.placeholder ++ ",") := by
  cases names with
  | nil => rfl
  | cons first names => rfl

theorem literal_infix (module : String) (o : Harness.Operations) :
    block (block (beginWith "let acc_meta = "
      (Harness.literalLines (module ++ "::accounts::" ++ o.name) o.accounts))) <:+:
        (Harness.Declaration.operations o).lines module := by
  have within {inner outer : List String} (h : inner <:+: outer) : block inner <:+: block outer :=
    h.map (Text.indented indent)
  have statement : block (beginWith "let acc_meta = "
      (Harness.literalLines (module ++ "::accounts::" ++ o.name) o.accounts)) <:+:
        Harness.accountsLines module o := by
    have opened : beginWith "let acc_meta = "
        (Harness.literalLines (module ++ "::accounts::" ++ o.name) o.accounts) <:+:
          ["let signers = vec![" ++ Harness.placeholder ++ "];"] ++ beginWith "let acc_meta = "
            (Harness.literalLines (module ++ "::accounts::" ++ o.name) o.accounts) ++
              [".to_account_metas(None);", "Ok((signers, acc_meta))"] := List.infix_append _ _ _
    exact (within opened).trans (List.infix_append _ _ _)
  have function : Harness.accountsLines module o <:+:
      Harness.dataLines module o ++ Harness.accountsLines module o ++ Harness.checkLines :=
    List.infix_append _ _ _
  exact (within (statement.trans function)).trans (List.infix_append _ _ _)

/-! ### The whole -/

theorem inOrder {code : SourceFile} {entry : Option SourceFile} {name : Option String}
    {body : List (Rust.Sibling Rust.Item)} {a : Analysis}
    (accepted : Accepted code entry name body a) (config : Config) (bindings : Harness.Bindings)
    (place : Nat) (h : Handler) (hp : a.handlers[place]? = some h) :
    InOrder config bindings a place h ((groupOf a h).fields.map Field.name) := by
  have context (g : Handler) (hg : g ∈ a.handlers) : ∃ c, a.contextFor? g = some c := by
    obtain ⟨-, -, -, c, hc, -⟩ := accepted.resolved.contextFor?_eq_some g hg
    exact ⟨c, hc⟩
  have instructions : a.idl.instructions = a.handlers.map (instructionOf a) := rfl
  have at_place : a.idl.instructions[place]? = some (instructionOf a h) := by
    rw [instructions, List.getElem?_map, hp]
    rfl
  have count : a.idl.instructions.length = a.handlers.length := List.length_map ..
  refine ⟨⟨at_place, rfl⟩, ?_, ?_, ?_, ?_⟩
  · rw [accountNames?_eq a place h hp, List.map_map]
    rfl
  · obtain ⟨q, hq, hk, stands⟩ :=
      Snapshot.exists_standsAt config a.idl place (instructionOf a h) at_place
    rw [instructions] at hq
    obtain ⟨g, hg, rfl⟩ := List.mem_map.mp hq
    obtain ⟨c, hc⟩ := context g hg
    obtain ⟨c', hc'⟩ := context h (List.mem_of_getElem? hp)
    -- Contexts are kept by identity, so the two instructions have one group.
    have identity : g.contextIdentity = h.contextIdentity := by
      rw [← contextKey_instructionOf hc, ← contextKey_instructionOf hc']
      exact hk
    have same : groupOf a g = groupOf a h := by
      have one : a.contextFor? g = a.contextFor? h := by simp only [Analysis.contextFor?, identity]
      rw [groupOf_eq hc, groupOf_eq hc']
      rw [hc, hc', Option.some.injEq] at one
      rw [one]
    have own : structOf (instructionOf a g) =
        structFor (typeNameFor (instructionOf a g)) (groupOf a h) := congrArg (structFor _) same
    rw [own] at stands
    have fields := fields_structFor (typeNameFor (instructionOf a g)) (groupOf a h)
    have plan := plan_structFor (typeNameFor (instructionOf a g)) (groupOf a h)
    exact ⟨_, stands, fields, plan, filledInOrder config _ _ fields plan, fun name => rfl⟩
  · refine ⟨_, declarationsOf_struct bindings a.idl place _ at_place, fun module => ?_⟩
    have fields : (instructionOf a h).2.fields.map (fun f => (f.name, Harness.accountId)) =
        ((groupOf a h).fields.map Field.name).map fun name => (name, Harness.accountId) := by
      rw [List.map_map]
      rfl
    rw [fields]
    exact structLines_eq _ _ _
  · refine ⟨_, count ▸ declarationsOf_operations bindings a.idl place _ at_place, fun module => ?_⟩
    have literal := literal_infix module (Harness.operationsOf (instructionOf a h))
    rw [literalLines_eq, show (Harness.operationsOf (instructionOf a h)).accounts =
      (groupOf a h).fields.map Field.name from rfl] at literal
    exact literal

/-- Of an accepted source, the names of the accounts of a handler are, wherever they are written
down, those of the fields of one struct, in order: the struct that the first handler of its identity
names. They are those of the struct that the handler itself names just if the two have fields of the
same names. -/
theorem analyze_inOrder (code : SourceFile) (entry : Option SourceFile) (name : Option String)
    (a : Analysis) (ha : analyze code entry name = .ok a) (config : Config)
    (bindings : Harness.Bindings) (place : Nat) (h : Handler) (hp : a.handlers[place]? = some h) :
    ∃ g ∈ firsts Handler.contextIdentity a.handlers, g.contextIdentity = h.contextIdentity ∧
      ∃ names, ownNames? (StructIndex.build code.items) g = some names ∧
        InOrder config bindings a place h names ∧
        ((∃ own, ownNames? (StructIndex.build code.items) h = some own ∧
            InOrder config bindings a place h own) ↔
          ownNames? (StructIndex.build code.items) h =
            ownNames? (StructIndex.build code.items) g) := by
  obtain ⟨body, accepted⟩ := (analyze_eq_ok code entry name a).mp ha
  obtain ⟨g, hg, hk, c, hc, resolves⟩ :=
    accepted.resolved.contextFor?_eq_some h (List.mem_of_getElem? hp)
  have order := inOrder accepted config bindings place h hp
  have fields : (groupOf a h).fields = c.fields := by rw [groupOf_eq hc]
  rw [fields] at order
  have names := ownNames?_of_resolves resolves
  refine ⟨g, hg, hk, c.fields.map Field.name, names, order, ?_⟩
  rw [names]
  constructor
  · rintro ⟨own, hown, other⟩
    rw [hown, ← other.group.2, order.group.2]
  · intro hown
    exact ⟨_, hown, order⟩

/-! ### Two structs of one spelling, both there -/

def bookSource : SourceFile where
  items := vaultSource.items ++ [.node (.struct "Book" (.named
    [.node (.field ⟨"keeper", ownerType⟩), .node .separator,
      .node (.field ⟨"ledger", ownerType⟩)]))]
  code := []

theorem analyze_bookSource : analyze bookSource none none = .ok vaultAnalysis := by
  have silent : declaredLiteral none bookSource = none := by
    rw [declaredLiteral_eq]
    rfl
  unfold analyze
  rw [silent]
  rfl

/-- The second handler names `Book`, and has the accounts of `State`. -/
theorem analyze_inOrder_bookSource :
    analyze bookSource none none = .ok vaultAnalysis ∧
      vaultAnalysis.handlers[1]? = some closing ∧
      ownNames? (StructIndex.build bookSource.items) closing = some ["keeper", "ledger"] ∧
      InOrder .standard [] vaultAnalysis 1 closing ["owner"] ∧
      ¬InOrder .standard [] vaultAnalysis 1 closing ["keeper", "ledger"] := by
  have own : ownNames? (StructIndex.build bookSource.items) closing =
      some ["keeper", "ledger"] := rfl
  obtain ⟨g, hg, -, names, hn, order, only⟩ := analyze_inOrder bookSource none none vaultAnalysis
    analyze_bookSource .standard [] 1 closing rfl
  have first : g = opening := by
    have firstOnes : firsts Handler.contextIdentity vaultAnalysis.handlers = [opening] := rfl
    rw [firstOnes] at hg
    exact List.mem_singleton.mp hg
  subst first
  have owner : names = ["owner"] := (Option.some.inj hn).symm
  subst owner
  refine ⟨analyze_bookSource, rfl, own, order, ?_⟩
  intro other
  have same := only.mp ⟨_, own, other⟩
  rw [own, hn, Option.some.injEq] at same
  exact absurd same (by decide)

end AnchorHarness.FieldOrder
