import AnchorHarness.Proofs.Program.Contexts
import AnchorHarness.Proofs.Program.DeclarationSearch

/-!
# Which programs are accepted

What a source must be like for `analyze` to yield an analysis, and which error it yields otherwise.
There are five conditions: one marked module, a body, a context parameter in front of every handler,
a struct behind every context, and a valid address. The first that fails decides the error, by the
first handler that fails it and the first field of that handler's struct.
-/

namespace AnchorHarness.Program

open Rust (Sibling Item Parameter SourceFile StructIndex)
open Occurrence (firsts)

/-! ### The conditions -/

/-- A function makes a handler: it has a first parameter, of a generic type with one argument
besides lifetimes, which is a path. -/
def MakesHandler (function : String × List Parameter) (h : Handler) : Prop :=
  ∃ first others, function.2 = first :: others ∧ first.type.kind = .genericType ∧
    first.type.typeArgs = [h.context] ∧ h.context.path ≠ [] ∧ h.name = function.1 ∧
    h.parameters = others.map fun p => (p.pattern, p.type.text)

/-- The program has the only marked module of the entry file, which has a body. -/
def Opened (code : SourceFile) (entry : Option SourceFile) (name : Option String)
    (program : String) (body : List (Sibling Item)) : Prop :=
  ∃ moduleName, markedModules (entry.getD code).items = [(moduleName, some body)] ∧
    program = programName name moduleName

/-- Every function of the program module makes a handler. -/
def Handled (body : List (Sibling Item)) (handlers : List Handler) : Prop :=
  List.Forall₂ MakesHandler (functionsOf body) handlers

/-- The text of the first declared address, those of the entry file before those of the code. -/
def firstLiteral (code : SourceFile) (entry : Option SourceFile) : Option String :=
  (Rust.callsOf (entry.elim [] SourceFile.code ++ code.code)).findSome? declaredIn?

/-- The address is the declared one, if there is one. -/
def Addressed (code : SourceFile) (entry : Option SourceFile) (address : Option String) : Prop :=
  match firstLiteral code entry with
  | none => address = none
  | some literal => ∃ found, Address.parse literal = .ok found ∧ address = some found.text

/-- An analysis meets all the conditions. -/
structure Accepted (code : SourceFile) (entry : Option SourceFile) (name : Option String)
    (body : List (Sibling Item)) (a : Analysis) : Prop where
  opened : Opened code entry name a.name body
  handled : Handled body a.handlers
  resolved : Resolved (StructIndex.build code.items) a.handlers a.contexts
  addressed : Addressed code entry a.address

/-- What is wrong with a source, by the first condition that fails. -/
inductive Rejected (code : SourceFile) (entry : Option SourceFile) (name : Option String) :
    Error → Prop where
  | missing : markedModules (entry.getD code).items = [] →
      Rejected code entry name ⟨.moduleMissing, name⟩
  | ambiguous : 2 ≤ (markedModules (entry.getD code).items).length →
      Rejected code entry name
        ⟨.moduleAmbiguous ((markedModules (entry.getD code).items).map Prod.fst), name⟩
  | empty (moduleName : String) :
      markedModules (entry.getD code).items = [(moduleName, none)] →
      Rejected code entry name ⟨.moduleEmpty, some (programName name moduleName)⟩
  | malformed (program : String) (body : List (Sibling Item))
      (before after : List (String × List Parameter)) (function : String × List Parameter) :
      Opened code entry name program body → functionsOf body = before ++ function :: after →
      (∀ g ∈ before, ∃ h, MakesHandler g h) → (¬∃ h, MakesHandler function h) →
      Rejected code entry name ⟨.malformedHandler function.1, some program⟩
  | context (program : String) (body : List (Sibling Item)) (handlers : List Handler) (e : Error) :
      Opened code entry name program body → Handled body handlers →
      FirstFault (StructIndex.build code.items) program
        (firsts Handler.contextIdentity handlers) e →
      Rejected code entry name e
  | address (program : String) (body : List (Sibling Item)) (handlers : List Handler)
      (contexts : List Context) (literal : String) (fault : AddressFault) :
      Opened code entry name program body → Handled body handlers →
      Resolved (StructIndex.build code.items) handlers contexts →
      firstLiteral code entry = some literal → Address.parse literal = .error fault →
      Rejected code entry name ⟨.invalidAddress literal fault, some program⟩

/-! ### Handlers -/

theorem contextArgument?_eq_some (p : Parameter) (context : Rust.TypeRef) :
    contextArgument? p = some context ↔
      p.type.kind = .genericType ∧ p.type.typeArgs = [context] ∧ context.path ≠ [] := by
  unfold contextArgument?
  by_cases hk : p.type.kind = .genericType
  · rw [if_pos hk]
    cases p.type.typeArgs with
    | nil => simp
    | cons ty rest =>
      cases rest with
      | cons _ _ => simp
      | nil =>
        by_cases hp : ty.path = []
        · simp only [Rust.TypeRef.isPath, hp]
          constructor
          · intro h
            cases h
          · rintro ⟨-, h, hn⟩
            cases h
            exact absurd hp hn
        · simp only [Rust.TypeRef.isPath, List.isEmpty_eq_false_iff.mpr hp]
          constructor
          · intro h
            cases h
            exact ⟨hk, rfl, hp⟩
          · rintro ⟨-, h, -⟩
            cases h
            rfl
  · simp [hk]

theorem handlerOf_eq_ok (program : String) (function : String × List Parameter) (h : Handler) :
    handlerOf program function.1 function.2 = .ok h ↔ MakesHandler function h := by
  obtain ⟨name, parameters⟩ := function
  unfold handlerOf MakesHandler
  cases parameters with
  | nil => simp
  | cons first others =>
    simp only
    cases hc : contextArgument? first with
    | none =>
      constructor
      · intro he
        cases he
      · rintro ⟨_, _, hs, hk, ht, hp, -⟩
        cases hs
        rw [(contextArgument?_eq_some first h.context).mpr ⟨hk, ht, hp⟩] at hc
        cases hc
    | some context =>
      obtain ⟨hk, ht, hp⟩ := (contextArgument?_eq_some first context).mp hc
      constructor
      · intro he
        cases he
        exact ⟨first, others, rfl, hk, ht, hp, rfl, rfl⟩
      · rintro ⟨_, _, hs, -, ht', -, rfl, hps⟩
        cases hs
        rw [ht] at ht'
        cases ht'
        rw [← hps]

/-- A function that makes no handler fails in one way. -/
theorem handlerOf_eq_error (program : String) (function : String × List Parameter) (e : Error) :
    handlerOf program function.1 function.2 = .error e ↔
      (¬∃ h, MakesHandler function h) ∧ e = ⟨.malformedHandler function.1, some program⟩ := by
  have only (e' : Error) (he : handlerOf program function.1 function.2 = .error e') :
      e' = ⟨.malformedHandler function.1, some program⟩ := by
    unfold handlerOf at he
    split at he
    · exact (Except.error.inj he).symm
    · split at he
      · exact (Except.error.inj he).symm
      · cases he
  constructor
  · intro he
    refine ⟨?_, only e he⟩
    rintro ⟨h, hh⟩
    rw [(handlerOf_eq_ok program function h).mpr hh] at he
    cases he
  · rintro ⟨hn, rfl⟩
    cases hr : handlerOf program function.1 function.2 with
    | ok h => exact absurd ⟨h, (handlerOf_eq_ok program function h).mp hr⟩ hn
    | error e' => rw [only e' hr]

theorem handlersOf_eq_ok (program : String) (body : List (Sibling Item))
    (handlers : List Handler) :
    handlersOf program body = .ok handlers ↔ Handled body handlers := by
  rw [handlersOf, Fallible.mapM_eq_ok]
  simp only [handlerOf_eq_ok]
  rfl

theorem handlersOf_eq_error (program : String) (body : List (Sibling Item)) (e : Error) :
    handlersOf program body = .error e ↔ ∃ before function after,
      functionsOf body = before ++ function :: after ∧ (∀ g ∈ before, ∃ h, MakesHandler g h) ∧
        (¬∃ h, MakesHandler function h) ∧ e = ⟨.malformedHandler function.1, some program⟩ := by
  rw [handlersOf, Fallible.mapM_eq_error]
  simp only [handlerOf_eq_ok, handlerOf_eq_error]

/-! ### The module and the address -/

theorem programModule_eq_ok (items : List (Sibling Item)) (name : Option String)
    (m : String × Option (List (Sibling Item))) :
    programModule items name = .ok m ↔ markedModules items = [m] := by
  unfold programModule
  cases markedModules items with
  | nil => simp
  | cons first rest => cases rest <;> simp

theorem programModule_eq_error (items : List (Sibling Item)) (name : Option String) (e : Error) :
    programModule items name = .error e ↔
      markedModules items = [] ∧ ⟨.moduleMissing, name⟩ = e ∨
        2 ≤ (markedModules items).length ∧
          ⟨.moduleAmbiguous ((markedModules items).map Prod.fst), name⟩ = e := by
  unfold programModule
  cases markedModules items with
  | nil => simp
  | cons first rest => cases rest <;> simp

theorem declaredLiteral_eq (code : SourceFile) (entry : Option SourceFile) :
    declaredLiteral entry code = firstLiteral code entry := by
  unfold declaredLiteral firstLiteral
  rw [literalIn_eq_or, search_tree, Rust.callsOf_append, List.findSome?_append]
  cases entry with
  | none => rfl
  | some file => rw [Option.map_some, Option.bind_some, search_tree, Option.elim_some]

theorem addressOf_eq_ok (code : SourceFile) (entry : Option SourceFile) (program : String)
    (address : Option String) :
    addressOf program (declaredLiteral entry code) = .ok address ↔
      Addressed code entry address := by
  rw [declaredLiteral_eq]
  unfold addressOf Addressed
  cases firstLiteral code entry with
  | none =>
    simp only [Except.ok.injEq]
    exact eq_comm
  | some literal =>
    cases hp : Address.parse literal with
    | error fault => simp [hp]
    | ok found =>
      simp only [hp, Except.ok.injEq, exists_eq_left']
      exact eq_comm

theorem addressOf_eq_error (program : String) (literal : Option String) (e : Error) :
    addressOf program literal = .error e ↔ ∃ text fault,
      literal = some text ∧ Address.parse text = .error fault ∧
        ⟨.invalidAddress text fault, some program⟩ = e := by
  unfold addressOf
  cases literal with
  | none => simp
  | some text => cases hp : Address.parse text <;> simp [hp]

/-! ### The whole -/

/-- The stages of an analysis that yields one. -/
theorem analyze_eq_ok (code : SourceFile) (entry : Option SourceFile) (name : Option String)
    (a : Analysis) :
    analyze code entry name = .ok a ↔ ∃ body, Accepted code entry name body a := by
  unfold analyze
  rw [Fallible.bind_eq_ok]
  constructor
  · rintro ⟨⟨moduleName, body⟩, hm, ha⟩
    have marked := (programModule_eq_ok _ name _).mp hm
    cases body with
    | none => cases ha
    | some body =>
      simp only [Fallible.bind_eq_ok] at ha
      obtain ⟨handlers, hh, contexts, hc, address, hd, ha⟩ := ha
      cases ha
      exact ⟨body, ⟨moduleName, marked, rfl⟩, (handlersOf_eq_ok _ body handlers).mp hh,
        (contextsOf_eq_ok _ _ handlers contexts).mp hc,
        (addressOf_eq_ok code entry _ address).mp hd⟩
  · rintro ⟨body, ⟨moduleName, marked, program⟩, handled, resolved, addressed⟩
    refine ⟨(moduleName, some body), (programModule_eq_ok _ name _).mpr marked, ?_⟩
    simp only [Fallible.bind_eq_ok]
    refine ⟨a.handlers, (handlersOf_eq_ok _ body a.handlers).mpr handled, a.contexts,
      (contextsOf_eq_ok _ _ a.handlers a.contexts).mpr resolved, a.address,
      (addressOf_eq_ok code entry _ a.address).mpr addressed, ?_⟩
    rw [← program]
    rfl

/-- The stages that may fail once there is a program module with a body. -/
theorem analyze_eq_error_of_opened {code : SourceFile} {entry : Option SourceFile}
    {name : Option String} {program : String} {body : List (Sibling Item)}
    (opened : Opened code entry name program body) (e : Error) :
    analyze code entry name = .error e ↔ handlersOf program body = .error e ∨
      ∃ handlers, Handled body handlers ∧
        (FirstFault (StructIndex.build code.items) program
            (firsts Handler.contextIdentity handlers) e ∨
          ∃ contexts, Resolved (StructIndex.build code.items) handlers contexts ∧
            addressOf program (firstLiteral code entry) = .error e) := by
  obtain ⟨moduleName, marked, rfl⟩ := opened
  have found := (programModule_eq_ok _ name _).mpr marked
  have yields (a : Analysis) : (pure a : Except Error Analysis) ≠ .error e := by
    simp [pure, Except.pure]
  unfold analyze
  rw [found, declaredLiteral_eq]
  simp only [Fallible.bind_eq_error, handlersOf_eq_ok, contextsOf_eq_ok, contextsOf_eq_error,
    reduceCtorEq, false_or, Except.ok.injEq, exists_eq_left', yields, and_false, exists_false,
    or_false]

/-- The stage of an analysis that fails. -/
theorem analyze_eq_error (code : SourceFile) (entry : Option SourceFile) (name : Option String)
    (e : Error) : analyze code entry name = .error e ↔ Rejected code entry name e := by
  constructor
  · intro he
    cases hm : programModule (entry.getD code).items name with
    | error e' =>
      unfold analyze at he
      rw [hm] at he
      cases he
      obtain ⟨none_marked, rfl⟩ | ⟨several, rfl⟩ := (programModule_eq_error _ name e).mp hm
      · exact .missing none_marked
      · exact .ambiguous several
    | ok m =>
      obtain ⟨moduleName, body⟩ := m
      have marked := (programModule_eq_ok _ name _).mp hm
      cases body with
      | none =>
        unfold analyze at he
        rw [hm] at he
        cases he
        exact .empty moduleName marked
      | some body =>
        have opened : Opened code entry name (programName name moduleName) body :=
          ⟨moduleName, marked, rfl⟩
        obtain he | ⟨handlers, handled, fault | ⟨contexts, resolved, he⟩⟩ :=
          (analyze_eq_error_of_opened opened e).mp he
        · obtain ⟨before, function, after, hs, hg, hn, rfl⟩ := (handlersOf_eq_error _ body e).mp he
          exact .malformed _ body before after function opened hs hg hn
        · exact .context _ body handlers e opened handled fault
        · obtain ⟨literal, fault, hl, hp, rfl⟩ := (addressOf_eq_error _ _ e).mp he
          exact .address _ body handlers contexts literal fault opened handled resolved hl hp
  · intro he
    cases he with
    | missing none_marked =>
      have failed := (programModule_eq_error _ name _).mpr (.inl ⟨none_marked, rfl⟩)
      unfold analyze
      rw [failed]
      rfl
    | ambiguous several =>
      have failed := (programModule_eq_error _ name _).mpr (.inr ⟨several, rfl⟩)
      unfold analyze
      rw [failed]
      rfl
    | empty moduleName marked =>
      have found := (programModule_eq_ok _ name _).mpr marked
      unfold analyze
      rw [found]
      rfl
    | malformed program body before after function opened hs hg hn =>
      have failed := (handlersOf_eq_error program body _).mpr
        ⟨before, function, after, hs, hg, hn, rfl⟩
      exact (analyze_eq_error_of_opened opened _).mpr (.inl failed)
    | context program body handlers e opened handled fault =>
      exact (analyze_eq_error_of_opened opened e).mpr (.inr ⟨handlers, handled, .inl fault⟩)
    | address program body handlers contexts literal fault opened handled resolved hl hp =>
      have failed := (addressOf_eq_error program _ _).mpr ⟨literal, fault, hl, hp, rfl⟩
      exact (analyze_eq_error_of_opened opened _).mpr
        (.inr ⟨handlers, handled, .inr ⟨contexts, resolved, failed⟩⟩)

/-- A source is accepted if it meets all conditions, and otherwise fails by the first that it does
not meet. The contexts are kept by identity, and each handler finds one. It is the handler's own
just if handlers of one identity agree; and of handlers that agree, none is passed over by looking
up the first of each identity only. -/
theorem analyze_settled (code : SourceFile) (entry : Option SourceFile) (name : Option String) :
    (∀ a, analyze code entry name = .ok a ↔ ∃ body, Accepted code entry name body a) ∧
      (∀ e, analyze code entry name = .error e ↔ Rejected code entry name e) ∧
      (∀ a, analyze code entry name = .ok a →
        a.contexts.map Context.identity =
            (firsts Handler.contextIdentity a.handlers).map Handler.contextIdentity ∧
          (∀ h ∈ a.handlers, ∃ c, a.contextFor? h = some c) ∧
          ((∀ h ∈ a.handlers, ∃ c, a.contextFor? h = some c ∧
            Resolves (StructIndex.build code.items) h c) ↔ Agreeing a.handlers)) ∧
      ∀ handlers, Agreeing handlers →
        ((∃ contexts, Resolved (StructIndex.build code.items) handlers contexts) ↔
          ∀ h ∈ handlers, ∃ c, Resolves (StructIndex.build code.items) h c) ∧
        ∀ program e,
          FirstFault (StructIndex.build code.items) program
              (firsts Handler.contextIdentity handlers) e ↔
            FirstFault (StructIndex.build code.items) program handlers e := by
  refine ⟨analyze_eq_ok code entry name, analyze_eq_error code entry name, ?_, ?_⟩
  · intro a ha
    obtain ⟨body, accepted⟩ := (analyze_eq_ok code entry name a).mp ha
    refine ⟨map_identity accepted.resolved, ?_, accepted.resolved.contextFor?_iff⟩
    intro h hh
    obtain ⟨-, -, -, c, hc, -⟩ := accepted.resolved.contextFor?_eq_some h hh
    exact ⟨c, hc⟩
  · intro handlers agree
    refine ⟨?_, agree.firstFault_iff _⟩
    have firstOnes : (∃ contexts, Resolved (StructIndex.build code.items) handlers contexts) ↔
        ∀ g ∈ firsts Handler.contextIdentity handlers,
          ∃ c, Resolves (StructIndex.build code.items) g c := by
      simp only [← contextsOf_eq_ok _ "", contextsOf_eq, Fallible.exists_mapM_eq_ok,
        resolveContext_eq_ok]
    rw [firstOnes, agree.resolves_iff]

/-! ### Two structs of one spelling

The types of the two handlers are written as `State // x::Book` with the end of the line after
`Book`, and with it after `x`. -/

def spelled (path : List String) : Rust.TypeRef :=
  ⟨"State // x::Book<'info>", .genericType, path, [⟨"'info", .lifetime, [], []⟩]⟩

def opening : Handler := ⟨"open", spelled ["State"], []⟩
def closing : Handler := ⟨"close", spelled ["State // x", "Book"], []⟩

def taking (h : Handler) : Item :=
  .function h.name
    [⟨"ctx", ⟨"Context<State // x::Book<'info>>", .genericType, ["Context"], [h.context]⟩⟩]

def ownerType : Rust.TypeRef :=
  ⟨"Signer<'info>", .genericType, ["Signer"], [⟨"'info", .lifetime, [], []⟩]⟩

def vaultSource : SourceFile where
  items := [.attribute "program", .node (.module "vault" [.node (taking opening),
      .node (taking closing)]), .attribute "derive(Accounts)",
    .node (.struct "State" (.named [.node (.field ⟨"owner", ownerType⟩)]))]
  code := []

def vaultAnalysis : Analysis where
  name := "vault"
  handlers := [opening, closing]
  contexts := [⟨"State", "State // x::Book<'info>", [], [⟨"owner", "Signer<'info>", "Signer<'info>",
    .signer, none, false, false, false, false, false⟩]⟩]
  address := none

theorem analyze_vaultSource : analyze vaultSource none none = .ok vaultAnalysis := by
  have silent : declaredLiteral none vaultSource = none := by
    rw [declaredLiteral_eq]
    rfl
  unfold analyze
  rw [silent]
  rfl

/-- The second handler is given the context of the first, though there is no struct of its own. -/
theorem analyze_settled_vaultSource :
    analyze vaultSource none none = .ok vaultAnalysis ∧
      (¬∀ h ∈ vaultAnalysis.handlers, ∃ c, vaultAnalysis.contextFor? h = some c ∧
        Resolves (StructIndex.build vaultSource.items) h c) ∧
      ¬∃ contexts, Resolved (StructIndex.build vaultSource.items) [closing] contexts := by
  obtain ⟨-, -, accepted, agreeing⟩ := analyze_settled vaultSource none none
  refine ⟨analyze_vaultSource, ?_, ?_⟩
  · intro own
    have agree := (accepted vaultAnalysis analyze_vaultSource).2.2.mp own
    have names := agree opening (by simp [vaultAnalysis]) closing (by simp [vaultAnalysis]) rfl
    exact absurd names (by decide)
  · have agree : Agreeing [closing] := by
      intro g hg h hh _
      rw [List.mem_singleton.mp hg, List.mem_singleton.mp hh]
    rw [(agreeing [closing] agree).1]
    intro resolves
    obtain ⟨c, d, members, hl, -⟩ := resolves closing (List.mem_singleton.mpr rfl)
    have absent : (StructIndex.build vaultSource.items).lookup closing.contextName = none := rfl
    rw [absent] at hl
    cases hl

end AnchorHarness.Program
