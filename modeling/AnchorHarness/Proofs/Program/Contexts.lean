import AnchorHarness.Program.Analysis
import AnchorHarness.Proofs.Fallible
import AnchorHarness.Proofs.Occurrence

/-!
# The contexts of handlers

Contexts are kept by identity, and the context of an identity is looked up for the first handler
that has it, by the name that this handler gives. So it is the context of a later handler only if
both name one struct, which types of one spelling need not do: the end of a line that ends a comment
is a blank like any other.
-/

namespace AnchorHarness.Program

open Rust (Sibling Member StructIndex StructDefinition)
open Occurrence (newAfter firsts)

/-! ### What a context is -/

def Classifies (declared : List String × Rust.FieldDeclaration) (f : Account.Field) : Prop :=
  Account.classify declared.2.name declared.2.type declared.1 = .ok f

/-- A context is the struct that a handler names, with all its fields classified. -/
def Resolves (index : StructIndex) (h : Handler) (c : Context) : Prop :=
  ∃ d members, index.lookup h.contextName = some d ∧ d.body = .named members ∧
    List.Forall₂ Classifies (Rust.declaredFields members) c.fields ∧
    c.name = d.name ∧ c.identity = h.contextIdentity ∧ c.modulePath = d.modulePath

/-- The first handler of each identity has its context. -/
def Resolved (index : StructIndex) (handlers : List Handler) (contexts : List Context) : Prop :=
  List.Forall₂ (Resolves index) (firsts Handler.contextIdentity handlers) contexts

/-- What is wrong with the context of a handler. -/
inductive ContextFault (index : StructIndex) (program : String) (h : Handler) : Error → Prop where
  | missing : index.lookup h.contextName = none →
      ContextFault index program h ⟨.contextMissing h.contextName, some program⟩
  | unnamed (d : StructDefinition) : index.lookup h.contextName = some d → d.body = .unnamed →
      ContextFault index program h ⟨.contextUnnamed d.name, some program⟩
  | field (d : StructDefinition) (members : List (Sibling Member))
      (before after : List (List String × Rust.FieldDeclaration))
      (f : List String × Rust.FieldDeclaration) (reason : Account.Unsupported) :
      index.lookup h.contextName = some d → d.body = .named members →
      Rust.declaredFields members = before ++ f :: after → (∀ g ∈ before, ∃ a, Classifies g a) →
      Account.classify f.2.name f.2.type f.1 = .error reason →
      ContextFault index program h
        ⟨.unsupportedField d.name f.2.name f.2.type.text reason, none⟩

/-- What is wrong with the contexts of some handlers, by the first that is not found. -/
def FirstFault (index : StructIndex) (program : String) (handlers : List Handler) (e : Error) :
    Prop :=
  ∃ before h after, handlers = before ++ h :: after ∧ (∀ g ∈ before, ∃ c, Resolves index g c) ∧
    ContextFault index program h e

/-! ### Looking up -/

theorem contextFields_eq_ok (struct : String) (members : List (Sibling Member))
    (fields : List Account.Field) :
    contextFields struct members = .ok fields ↔
      List.Forall₂ Classifies (Rust.declaredFields members) fields := by
  rw [contextFields, Fallible.mapM_eq_ok]
  simp only [Fallible.mapError_eq_ok]
  rfl

theorem contextFields_eq_error (struct : String) (members : List (Sibling Member)) (e : Error) :
    contextFields struct members = .error e ↔ ∃ before f after,
      Rust.declaredFields members = before ++ f :: after ∧ (∀ g ∈ before, ∃ a, Classifies g a) ∧
        ∃ reason, Account.classify f.2.name f.2.type f.1 = .error reason ∧
          ⟨.unsupportedField struct f.2.name f.2.type.text reason, none⟩ = e := by
  rw [contextFields, Fallible.mapM_eq_error]
  simp only [Fallible.mapError_eq_ok, Fallible.mapError_eq_error]
  rfl

theorem resolveContext_eq_ok (index : StructIndex) (program : String) (h : Handler) (c : Context) :
    resolveContext index program h = .ok c ↔ Resolves index h c := by
  unfold resolveContext Resolves
  cases index.lookup h.contextName with
  | none => simp
  | some d =>
    simp only [contextOf]
    cases hb : d.body with
    | unnamed => simp [hb]
    | named members =>
      rw [Fallible.map_eq_ok]
      simp only [contextFields_eq_ok]
      constructor
      · rintro ⟨fields, hf, rfl⟩
        exact ⟨d, members, rfl, hb, hf, rfl, rfl, rfl⟩
      · rintro ⟨d', members', hd, hb', hf, hn, hi, hm⟩
        cases hd
        rw [hb] at hb'
        cases hb'
        exact ⟨c.fields, hf, by rw [← hn, ← hi, ← hm]⟩

theorem resolveContext_eq_error (index : StructIndex) (program : String) (h : Handler) (e : Error) :
    resolveContext index program h = .error e ↔ ContextFault index program h e := by
  unfold resolveContext
  constructor
  · intro he
    cases hl : index.lookup h.contextName with
    | none =>
      rw [hl] at he
      cases he
      exact .missing hl
    | some d =>
      simp only [hl, contextOf] at he
      cases hb : d.body with
      | unnamed =>
        rw [hb] at he
        cases he
        exact .unnamed d hl hb
      | named members =>
        rw [hb] at he
        have failed := Fallible.map_eq_error.mp he
        obtain ⟨before, f, after, hs, hg, reason, hr, rfl⟩ :=
          (contextFields_eq_error d.name members e).mp failed
        exact .field d members before after f reason hl hb hs hg hr
  · intro he
    cases he with
    | missing hl => rw [hl]
    | unnamed d hl hb => simp only [hl, contextOf, hb]
    | field d members before after f reason hl hb hs hg hr =>
      have failed := (contextFields_eq_error d.name members _).mpr
        ⟨before, f, after, hs, hg, reason, hr, rfl⟩
      simp only [hl, contextOf, hb]
      exact Fallible.map_eq_error.mpr failed

theorem Resolves.identity {index : StructIndex} {h : Handler} {c : Context}
    (r : Resolves index h c) : c.identity = h.contextIdentity := by
  obtain ⟨-, -, -, -, -, -, hi, -⟩ := r
  exact hi

theorem map_identity {index : StructIndex} {handlers : List Handler} {contexts : List Context}
    (h : List.Forall₂ (Resolves index) handlers contexts) :
    contexts.map Context.identity = handlers.map Handler.contextIdentity := by
  induction h with
  | nil => rfl
  | cons r _ ih => rw [List.map_cons, List.map_cons, r.identity, ih]

/-- A context of the identity is known just if a handler of the identity came before. -/
theorem Resolved.known_iff {index : StructIndex} {handlers : List Handler}
    {contexts : List Context} (resolved : Resolved index handlers contexts) (h : Handler) :
    (∃ c ∈ contexts, c.identity = h.contextIdentity) ↔
      newAfter Handler.contextIdentity handlers h = false := by
  have listed : (∃ c ∈ contexts, c.identity = h.contextIdentity) ↔
      h.contextIdentity ∈ (firsts Handler.contextIdentity handlers).map Handler.contextIdentity := by
    rw [← map_identity resolved, List.mem_map]
  rw [listed, Occurrence.mem_map_firsts, Occurrence.newAfter_eq_false_iff, List.mem_map]

/-- The contexts are those of the first handlers, each looked up by its own name. -/
theorem contextsOf_eq (index : StructIndex) (program : String) (handlers : List Handler) :
    contextsOf index program handlers =
      (firsts Handler.contextIdentity handlers).mapM (resolveContext index program) := by
  induction handlers using List.reverseRecOn with
  | nil => rfl
  | append_singleton handlers h ih =>
    rw [contextsOf] at ih
    rw [contextsOf, List.foldlM_append, ih, Occurrence.firsts_append_singleton, List.mapM_append]
    cases hc : (firsts Handler.contextIdentity handlers).mapM (resolveContext index program) with
    | error e => rfl
    | ok contexts =>
      have resolved : Resolved index handlers contexts := by
        simpa only [Fallible.mapM_eq_ok, resolveContext_eq_ok, Resolved] using hc
      have known := resolved.known_iff h
      have step : List.foldlM (addContext index program) contexts [h] =
          addContext index program contexts h := by simp
      change List.foldlM (addContext index program) contexts [h] = _
      rw [step, addContext]
      cases hn : newAfter Handler.contextIdentity handlers h with
      | false =>
        rw [hn] at known
        have seen : (contexts.any fun c => c.identity = h.contextIdentity) = true := by
          simpa using known
        rw [seen]
        simp [pure, Except.pure, bind, Except.bind]
      | true =>
        rw [hn] at known
        have fresh : (contexts.any fun c => c.identity = h.contextIdentity) = false := by
          simpa using known
        rw [fresh]
        cases hr : resolveContext index program h with
        | error e => simp [hr, bind, Except.bind, Except.map]
        | ok c => simp [hr, pure, Except.pure, bind, Except.bind, Except.map]

theorem contextsOf_eq_ok (index : StructIndex) (program : String) (handlers : List Handler)
    (contexts : List Context) :
    contextsOf index program handlers = .ok contexts ↔ Resolved index handlers contexts := by
  rw [contextsOf_eq, Fallible.mapM_eq_ok]
  simp only [resolveContext_eq_ok]
  rfl

theorem mapM_resolveContext_eq_error (index : StructIndex) (program : String)
    (handlers : List Handler) (e : Error) :
    handlers.mapM (resolveContext index program) = .error e ↔
      FirstFault index program handlers e := by
  rw [Fallible.mapM_eq_error]
  simp only [resolveContext_eq_ok, resolveContext_eq_error]
  rfl

theorem contextsOf_eq_error (index : StructIndex) (program : String) (handlers : List Handler)
    (e : Error) :
    contextsOf index program handlers = .error e ↔
      FirstFault index program (firsts Handler.contextIdentity handlers) e := by
  rw [contextsOf_eq, mapM_resolveContext_eq_error]

/-! ### Handlers that agree -/

/-- Handlers whose contexts have one identity name one struct. -/
def Agreeing (handlers : List Handler) : Prop :=
  ∀ g ∈ handlers, ∀ h ∈ handlers, g.contextIdentity = h.contextIdentity →
    g.contextName = h.contextName

theorem resolveContext_congr (index : StructIndex) (program : String) {g h : Handler}
    (identity : g.contextIdentity = h.contextIdentity) (name : g.contextName = h.contextName) :
    resolveContext index program g = resolveContext index program h := by
  simp only [resolveContext, identity, name]

/-- Handlers that agree have their contexts just if the first ones of each identity do. -/
theorem Agreeing.resolves_iff {handlers : List Handler} (agree : Agreeing handlers)
    (index : StructIndex) :
    (∀ g ∈ firsts Handler.contextIdentity handlers, ∃ c, Resolves index g c) ↔
      ∀ h ∈ handlers, ∃ c, Resolves index h c := by
  constructor
  · intro resolved h hh
    obtain ⟨g, hg, hk⟩ := Occurrence.exists_mem_firsts Handler.contextIdentity handlers h hh
    obtain ⟨c, hc⟩ := resolved g hg
    have name := agree g (Occurrence.mem_of_mem_firsts _ handlers g hg) h hh hk
    rw [← resolveContext_eq_ok index "", resolveContext_congr index "" hk name] at hc
    exact ⟨c, (resolveContext_eq_ok index "" h c).mp hc⟩
  · intro resolved g hg
    exact resolved g (Occurrence.mem_of_mem_firsts _ handlers g hg)

/-- Of handlers that agree, the first with a fault is the first of its identity. -/
theorem Agreeing.firstFault_iff {handlers : List Handler} (agree : Agreeing handlers)
    (index : StructIndex) (program : String) (e : Error) :
    FirstFault index program (firsts Handler.contextIdentity handlers) e ↔
      FirstFault index program handlers e := by
  rw [← mapM_resolveContext_eq_error, ← mapM_resolveContext_eq_error]
  induction handlers using List.reverseRecOn with
  | nil => rfl
  | append_singleton handlers h ih =>
    have earlier : Agreeing handlers := fun g hg g' hg' =>
      agree g (List.mem_append_left _ hg) g' (List.mem_append_left _ hg')
    have all : (∀ g ∈ firsts Handler.contextIdentity handlers,
        ∃ c, resolveContext index program g = .ok c) ↔
          ∀ g ∈ handlers, ∃ c, resolveContext index program g = .ok c := by
      simpa only [resolveContext_eq_ok] using earlier.resolves_iff index
    rw [Occurrence.firsts_append_singleton, Fallible.mapM_append_singleton_eq_error]
    cases hn : newAfter Handler.contextIdentity handlers h with
    | true => rw [if_pos rfl, Fallible.mapM_append_singleton_eq_error, ih earlier, all]
    | false =>
      obtain ⟨g, hg, hk⟩ := (Occurrence.newAfter_eq_false_iff _ handlers h).mp hn
      have name := agree g (List.mem_append_left _ hg) h (by simp) hk
      have same := resolveContext_congr index program hk name
      -- A handler whose identity has come before has the fault of that one, if any.
      have silent : ¬((∀ g ∈ handlers, ∃ c, resolveContext index program g = .ok c) ∧
          resolveContext index program h = .error e) := by
        rintro ⟨resolved, fault⟩
        obtain ⟨c, hc⟩ := resolved g hg
        rw [same, fault] at hc
        cases hc
      simp only [Bool.false_eq_true, ite_false, List.append_nil, ih earlier, silent, or_false]

/-! ### The context of each handler -/

theorem Resolved.nodup_identity {index : StructIndex} {handlers : List Handler}
    {contexts : List Context} (resolved : Resolved index handlers contexts) :
    (contexts.map Context.identity).Nodup := by
  rw [map_identity resolved]
  exact Occurrence.nodup_map_firsts Handler.contextIdentity handlers

/-- A handler has the context that was looked up for the first handler of its identity. -/
theorem Resolved.contextFor?_eq_some {index : StructIndex} {a : Analysis}
    (resolved : Resolved index a.handlers a.contexts) (h : Handler) (hh : h ∈ a.handlers) :
    ∃ g ∈ firsts Handler.contextIdentity a.handlers, g.contextIdentity = h.contextIdentity ∧
      ∃ c, a.contextFor? h = some c ∧ Resolves index g c := by
  obtain ⟨g, hg, hk⟩ := Occurrence.exists_mem_firsts Handler.contextIdentity a.handlers h hh
  obtain ⟨place, hp, rfl⟩ := List.getElem_of_mem hg
  have hp' : place < a.contexts.length := resolved.length_eq ▸ hp
  have resolves := resolved.get hp hp'
  simp only [List.get_eq_getElem] at resolves
  have identity : a.contexts[place].identity = h.contextIdentity := resolves.identity.trans hk
  have found := Occurrence.find?_of_nodup resolved.nodup_identity (List.getElem_mem hp')
  rw [identity] at found
  exact ⟨_, hg, hk, a.contexts[place], found, resolves⟩

theorem Resolves.name {index : StructIndex} {h : Handler} {c : Context}
    (r : Resolves index h c) : c.name = h.contextName := by
  obtain ⟨d, -, hl, -, -, hn, -⟩ := r
  rw [hn]
  rw [StructIndex.lookup_eq_find?] at hl
  simpa using List.find?_some hl

/-- Every handler has its own context just if handlers of one identity agree. -/
theorem Resolved.contextFor?_iff {index : StructIndex} {a : Analysis}
    (resolved : Resolved index a.handlers a.contexts) :
    (∀ h ∈ a.handlers, ∃ c, a.contextFor? h = some c ∧ Resolves index h c) ↔
      Agreeing a.handlers := by
  constructor
  · intro own g hg h hh hk
    obtain ⟨c, hc, rc⟩ := own g hg
    obtain ⟨c', hc', rc'⟩ := own h hh
    have one : a.contextFor? g = a.contextFor? h := by simp only [Analysis.contextFor?, hk]
    rw [hc, hc', Option.some.injEq] at one
    rw [← rc.name, ← rc'.name, one]
  · intro agree h hh
    obtain ⟨g, hg, hk, c, hc, rc⟩ := resolved.contextFor?_eq_some h hh
    have name := agree g (Occurrence.mem_of_mem_firsts _ a.handlers g hg) h hh hk
    refine ⟨c, hc, ?_⟩
    rw [← resolveContext_eq_ok _ ""] at rc ⊢
    rw [← resolveContext_congr _ "" hk name]
    exact rc

end AnchorHarness.Program
