import AnchorHarness.Proofs.Harness.Registry
import AnchorHarness.Proofs.Program.Acceptance
import AnchorHarness.Proofs.Snapshot.Sharing
import AnchorHarness.Proofs.Snapshot.Types

/-!
# Generating code for accepted programs

Only a kind without a typed entry and a role that is not there could stop the generation, and neither
is ever asked for. In what is generated, the values of the snapshot fields are of the types of the
fields, as these were written in the source.
-/

namespace AnchorHarness.Generation

open Account (Field bareType)
open Harness (Bindings RoleRegistry UnknownRole registryOf rolesOfInstruction)
open Program
open Rust (SourceFile StructIndex TypeRef)
open Snapshot

/-! ### Steps and roles that may fail -/

/-- The step of a field, where a kind without a typed entry is a fault unless it has a mode of its
own. -/
def tryStep (f : Field) : Except NoEntry Step :=
  if f.isComposite then .ok ⟨f.name, .placeholder, f.isOptional⟩
  else if f.isRawHandle then .ok ⟨f.name, .raw, f.isOptional⟩
  else if f.kind = .uncheckedAccount then .ok ⟨f.name, .unchecked, f.isOptional⟩
  else (entryFor f).map fun entry => ⟨f.name, .typed entry, f.isOptional⟩

def tryRegistry (bindings : Bindings) (p : ProgramIdl) : Except UnknownRole RoleRegistry :=
  bindings.foldlM (fun r b => if r.contains b.1 then r.bind b.1 b.2 else .ok r)
    ((p.instructions.flatMap rolesOfInstruction).foldl RoleRegistry.add RoleRegistry.empty)

theorem tryStep_eq (f : Field) : tryStep f = .ok (stepFor f) := by
  unfold tryStep stepFor modeFor Field.isComposite Field.isRawHandle entryFor
  cases f.kind <;> rfl

theorem mapM_tryStep (name : String) (group : AccountGroup) :
    group.fields.mapM tryStep = .ok (structFor name group).plan := by
  rw [Fallible.mapM_eq_ok, structFor, List.forall₂_map_right_iff, List.forall₂_same]
  exact fun f _ => tryStep_eq f

theorem tryRegistry_eq (bindings : Bindings) (p : ProgramIdl) :
    tryRegistry bindings p = .ok (registryOf bindings p) := by
  have step (r : RoleRegistry) (b : String × Harness.Strategy) :
      (if r.contains b.1 then r.bind b.1 b.2 else .ok r) = .ok (r.bindIfPresent b) := by
    unfold RoleRegistry.bindIfPresent RoleRegistry.bind
    cases r.contains b.1 <;> rfl
  have bound (r : RoleRegistry) :
      bindings.foldlM (fun r b => if r.contains b.1 then r.bind b.1 b.2 else .ok r) r =
        .ok (bindings.foldl RoleRegistry.bindIfPresent r) := by
    induction bindings generalizing r with
    | nil => rfl
    | cons b bindings ih =>
      rw [List.foldlM_cons, step]
      exact ih (r.bindIfPresent b)
  exact bound _

/-! ### Inner types -/

def WritesInner (f : Field) : Prop :=
  ∃ inner, entryFor { f with innerType := inner } ≠ entryFor f

theorem isSome_innerType {f : Field} {ty : TypeRef}
    (shaped : Account.Shaped ty ⟨f.kind, f.innerType, f.isInterface⟩) (writes : WritesInner f) :
    f.innerType.isSome = true := by
  obtain ⟨inner, other⟩ := writes
  generalize hs : Account.Shape.mk f.kind f.innerType f.isInterface = shape at shaped
  cases shaped with
  | composite ident hi hw =>
    obtain ⟨hk, -, -⟩ := Account.Shape.mk.inj hs
    exact absurd (by simp [entryFor, hk]) other
  | plain ident kind hi hw =>
    obtain ⟨rfl, -, -⟩ := Account.Shape.mk.inj hs
    obtain ⟨-, hk⟩ | ⟨-, hk⟩ | ⟨-, hk⟩ | ⟨-, hk⟩ := Account.wrapper?_plain_cases hw <;>
      exact absurd (by simp [entryFor, hk]) other
  | holding ident kind inner hi hw _ ha =>
    obtain ⟨-, hn, -⟩ := Account.Shape.mk.inj hs
    exact hn ▸ rfl
  | sysvar inner name hi ha hv there =>
    obtain ⟨-, hn, -⟩ := Account.Shape.mk.inj hs
    exact hn ▸ rfl

/-! ### Fields -/

/-- The values of a field with an account of some type are of the type of the field. -/
structure Typed (f : Field) (ty : TypeRef) : Prop where
  text : fieldType f = (typeOf f ty).text
  makes : Makes (modeFor f) (presentType f ty)
  -- The text of the account's type may read as another type than the one that was written.
  read : (TypeRef.parse f.accountType).ident = ty.ident →
    argumentsOf (TypeRef.parse f.accountType) = argumentsOf ty →
      Makes (modeFor f) (presentType f (TypeRef.parse f.accountType))
  statement : ∃ links, statementFor (stepFor f) = .bind f.name (declaredType? f) links ∧
    ∀ {α κ β : Type} [DecidableEq κ] (w : World α κ β) sentinel env slots v c,
      (chain sentinel links).eval w env (some slots) = .ok (v, c) → FromStep w (stepFor f) v

theorem typed_of_classified {name : String} {declared : TypeRef} {attributes : List String}
    {f : Field} (h : Account.classify name declared attributes = .ok f)
    (leaf : f.isComposite = false) (exact : Exact (bareType declared)) :
    Typed f (bareType declared) := by
  obtain ⟨-, -, ht, shaped⟩ := Account.classify_eq_ok h
  have makes := makes_modeFor shaped leaf exact
  obtain ⟨links, hs⟩ := exists_links leaf
  exact ⟨(text_typeOf ht).symm, makes, makes.congr, links, hs,
    fun _ _ _ _ _ _ he => fromStep_of_eval leaf hs he⟩

/-- The fields of a program's group are those of a struct of the source, classified. -/
theorem exists_struct_of_group {code : SourceFile} {entry : Option SourceFile}
    {name : Option String} {a : Analysis} (h : analyze code entry name = .ok a)
    {p : Instruction × AccountGroup} (hp : p ∈ a.idl.instructions) :
    ∃ d members, d ∈ (StructIndex.build code.items).definitions ∧ d.body = .named members ∧
      p.2.name = d.name ∧ List.Forall₂ Classifies (Rust.declaredFields members) p.2.fields := by
  obtain ⟨body, accepted⟩ := (analyze_eq_ok code entry name a).mp h
  obtain ⟨handler, hh, rfl⟩ := List.mem_map.mp hp
  obtain ⟨g, -, -, c, hc, d, members, hl, hb, classified, hn, -⟩ :=
    accepted.resolved.contextFor?_eq_some handler hh
  rw [StructIndex.lookup_eq_find?] at hl
  simp only [groupOf, hc]
  exact ⟨d, members, List.mem_of_find?_eq_some hl, hb, hn, classified⟩

/-- A field of a program's groups is one that the source declares, classified. -/
theorem exists_classified {code : SourceFile} {entry : Option SourceFile} {name : Option String}
    {a : Analysis} (h : analyze code entry name = .ok a) {p : Instruction × AccountGroup}
    (hp : p ∈ a.idl.instructions) {f : Field} (hf : f ∈ p.2.fields) :
    ∃ d members, d ∈ (StructIndex.build code.items).definitions ∧ d.body = .named members ∧
      ∃ declared ∈ Rust.declaredFields members, Classifies declared f := by
  obtain ⟨d, members, hd, hb, -, classified⟩ := exists_struct_of_group h hp
  obtain ⟨place, hplace, rfl⟩ := List.getElem_of_mem hf
  have hdeclared := classified.length_eq ▸ hplace
  exact ⟨d, members, hd, hb, _, List.getElem_mem hdeclared, classified.get hdeclared hplace⟩

theorem plan_of_mem_structs (config : Config) (p : ProgramIdl) {d : Struct}
    (hd : d ∈ (snapshotsOf config p).structs) :
    ∃ i ∈ p.instructions, d.fields = i.2.fields.map (fun f => (f.name, fieldType f)) ∧
      i.2.fields.mapM tryStep = .ok d.plan := by
  rw [structs_snapshotsOf, List.mem_map] at hd
  obtain ⟨i, hi, rfl⟩ := hd
  exact ⟨i, Occurrence.mem_of_mem_firsts contextKey p.instructions i hi, rfl,
    mapM_tryStep (typeNameFor i) i.2⟩

/-- What is generated of an accepted program: no step and no binding fails, no inner type is lacking
where one is written, and the values of the fields are of the types that the source declares. -/
theorem generated_typed (code : SourceFile) (entry : Option SourceFile) (name : Option String)
    (a : Analysis) (h : analyze code entry name = .ok a) (config : Config) (bindings : Bindings) :
    (∀ d ∈ (snapshotsOf config a.idl).structs, ∃ p ∈ a.idl.instructions,
        d.fields = p.2.fields.map (fun f => (f.name, fieldType f)) ∧
        p.2.fields.mapM tryStep = .ok d.plan) ∧
      tryRegistry bindings a.idl = .ok (registryOf bindings a.idl) ∧
      ∀ p ∈ a.idl.instructions, ∀ f ∈ p.2.fields,
        (WritesInner f → f.innerType.isSome = true) ∧
        ∃ d members, d ∈ (StructIndex.build code.items).definitions ∧ d.body = .named members ∧
          ∃ declared ∈ Rust.declaredFields members, Classifies declared f ∧
            (f.isComposite = false → Exact (bareType declared.2.type) →
              Typed f (bareType declared.2.type)) := by
  refine ⟨fun d hd => plan_of_mem_structs config a.idl hd, tryRegistry_eq bindings a.idl, ?_⟩
  intro p hp f hf
  obtain ⟨d, members, hd, hb, declared, hm, classified⟩ := exists_classified h hp hf
  obtain ⟨-, -, -, shaped⟩ := Account.classify_eq_ok classified
  exact ⟨isSome_innerType shaped, d, members, hd, hb, declared, hm, classified,
    typed_of_classified classified⟩

/-! ### A type that is not read as it was written

The path of the type goes over two lines, and the first one ends in a comment. -/

def ownerType : TypeRef := ⟨"kit // x::Signer", .scopedTypeIdentifier, ["kit // x", "Signer"], []⟩

theorem parse_ownerType : TypeRef.parse "kit // x\n::Signer" = ownerType := by
  have trees : Rust.treesOfText "kit // x\n::Signer".toList =
      [.leaf ⟨[], .word, "kit".toList⟩, .leaf ⟨" ".toList, .comment, "// x".toList⟩,
        .leaf ⟨"\n".toList, .symbol, "::".toList⟩, .leaf ⟨[], .word, "Signer".toList⟩] := by cbv
  unfold TypeRef.parse
  rw [trees]
  rfl

/-- In the text that is kept, the comment takes in the rest of the path. -/
theorem parse_text_ownerType :
    TypeRef.parse ownerType.text = ⟨"kit", .typeIdentifier, ["kit"], []⟩ := by
  have trees : Rust.treesOfText ownerType.text.toList =
      [.leaf ⟨[], .word, "kit".toList⟩, .leaf ⟨" ".toList, .comment, "// x::Signer".toList⟩] := by
    cbv
  unfold TypeRef.parse
  rw [trees]
  rfl

def ownerField : Field :=
  ⟨"owner", ownerType.text, ownerType.text, .signer, none, false, false, false, false, false⟩

def openHandler : Handler :=
  ⟨"open", ⟨"Open<'info>", .genericType, ["Open"], [⟨"'info", .lifetime, [], []⟩]⟩, []⟩

def ownerSource : SourceFile where
  items := [.attribute "program", .node (.module "vault" [.node (.function "open"
      [⟨"ctx", ⟨"Context<Open<'info>>", .genericType, ["Context"], [openHandler.context]⟩⟩])]),
    .attribute "derive(Accounts)",
    .node (.struct "Open" (.named [.node (.field ⟨"owner", ownerType⟩)]))]
  code := []

def ownerAnalysis : Analysis where
  name := "vault"
  handlers := [openHandler]
  contexts := [⟨"Open", "Open<'info>", [], [ownerField]⟩]
  address := none

theorem analyze_ownerSource : analyze ownerSource none none = .ok ownerAnalysis := by
  have silent : declaredLiteral none ownerSource = none := by
    rw [declaredLiteral_eq]
    rfl
  unfold analyze
  rw [silent]
  rfl

/-- The value of the field is of the type that was written, and not of the one that is read. -/
theorem generated_typed_ownerSource :
    TypeRef.parse "kit // x\n::Signer" = ownerType ∧
      analyze ownerSource none none = .ok ownerAnalysis ∧ Typed ownerField ownerType ∧
      ¬Makes (modeFor ownerField)
        (presentType ownerField (TypeRef.parse ownerField.accountType)) := by
  obtain ⟨-, -, fields⟩ :=
    generated_typed ownerSource none none ownerAnalysis analyze_ownerSource .standard []
  obtain ⟨-, d, members, hd, hb, declared, hm, -, typed⟩ :=
    fields _ (List.mem_singleton.mpr rfl) ownerField (List.mem_singleton.mpr rfl)
  have index : (StructIndex.build ownerSource.items).definitions =
      [⟨"Open", [], .named [.node (.field ⟨"owner", ownerType⟩)]⟩] := rfl
  rw [index, List.mem_singleton] at hd
  subst hd
  cases hb
  obtain rfl : declared = ([], ⟨"owner", ownerType⟩) := List.mem_singleton.mp hm
  refine ⟨parse_ownerType, analyze_ownerSource, typed rfl ?_, ?_⟩
  · intro ident kind takes _ _
    exact Nat.zero_le _
  · have read : TypeRef.parse ownerField.accountType = ⟨"kit", .typeIdentifier, ["kit"], []⟩ :=
      parse_text_ownerType
    rw [read]
    intro makes
    change Makes (.typed ⟨"Signer<'_>", accountsModule ++ "::signer::Signer::try_from"⟩)
      (.owned ⟨"kit", .typeIdentifier, ["kit"], []⟩) at makes
    -- The method of the step belongs to `Signer`, and the field's type ends in `kit`.
    cases makes with
    | typed _ _ ident hi _ belongs =>
      obtain rfl : "kit" = ident := Option.some.inj hi
      exact absurd belongs (by decide)

end AnchorHarness.Generation
