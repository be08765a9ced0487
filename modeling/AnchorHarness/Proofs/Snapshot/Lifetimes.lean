import AnchorHarness.Proofs.Generation
import AnchorHarness.Proofs.Rust.Lifetimes

/-!
# Lifetimes of snapshot structs

Every snapshot struct is generic in `'info`, whatever the struct it is made from. The types of its
fields are those of the source, so they have the lifetimes of the source; only the reference to an
`AccountInfo`, and the marker of a struct without fields, bring `'info` along. So a struct that names
no `'info` of its own has a parameter that it does not use, and one that names another lifetime
uses what it does not declare.
-/

namespace AnchorHarness.Snapshot

open Account (Field Shaped bareType)
open Program (Classifies Analysis Handler analyze)
open Rust (Sibling Member SourceFile StructIndex TypeRef declaredFields lifetimesIn)
open Text (indent)

/-! ### What a struct shows -/

/-- What stands between the braces of a struct: names and types. -/
def shown (s : Struct) : List (String × String) :=
  if s.fields.isEmpty then [("_marker", phantom ++ "<&'info ()>")]
  else s.fields.map fun (name, type) => ("pub " ++ name, type)

def shownLine (shown : String × String) : String := indent ++ shown.1 ++ ": " ++ shown.2 ++ ","

/-- The lines of a struct are its head with the parameter `'info`, and what it shows. -/
theorem structLines_eq_shown (s : Struct) :
    structLines s = ["pub struct " ++ s.name ++ "<'info> \x7b"] ++
      (shown s).map shownLine ++ ["\x7d"] := by
  unfold structLines shown
  cases s.fields with
  | nil => rfl
  | cons f fields => simp [shownLine, String.append_assoc]

/-- A lifetime stands in a type of the struct. -/
def Mentions (s : Struct) (lifetime : String) : Prop :=
  ∃ f ∈ shown s, lifetime ∈ lifetimesIn f.2

def IsNamed (lifetime : String) : Prop := lifetime ≠ "'static" ∧ lifetime ≠ "'_"

/-- The lifetime that the struct declares is used, and no other named one is. -/
structure Closed (s : Struct) : Prop where
  used : Mentions s "'info"
  declared : ∀ lifetime, Mentions s lifetime → IsNamed lifetime → lifetime = "'info"

/-! ### Fields -/

theorem lifetimesIn_marker : lifetimesIn (phantom ++ "<&'info ()>") = ["'info"] := by
  have tokens : Rust.tokenize (phantom ++ "<&'info ()>").toList =
      [⟨[], .word, "core".toList⟩, ⟨[], .symbol, "::".toList⟩, ⟨[], .word, "marker".toList⟩,
        ⟨[], .symbol, "::".toList⟩, ⟨[], .word, "PhantomData".toList⟩, ⟨[], .symbol, "<".toList⟩,
        ⟨[], .symbol, "&".toList⟩, ⟨[], .lifetime, "'info".toList⟩, ⟨[' '], .symbol, "(".toList⟩,
        ⟨[], .symbol, ")".toList⟩, ⟨[], .symbol, ">".toList⟩] := by cbv
  rw [lifetimesIn, Rust.lifetimesOf, tokens]
  rfl

/-- The type of a field has the lifetimes of the account's type, and `'info` before them if the
account is borrowed. -/
theorem lifetimesIn_fieldType (f : Field) :
    lifetimesIn (fieldType f) =
      (if f.isRawHandle then ["'info"] else []) ++ lifetimesIn f.accountType := by
  unfold fieldType
  cases f.isOptional <;> cases f.isRawHandle
  · rfl
  · exact Rust.lifetimesIn_borrowed f.accountType
  · exact Rust.lifetimesIn_option f.accountType
  · show lifetimesIn ("Option<" ++ ("&'info " ++ f.accountType) ++ ">") = _
    rw [Rust.lifetimesIn_option, Rust.lifetimesIn_borrowed]
    rfl

theorem kind_eq_rawHandle_iff {ty : TypeRef} {shape : Account.Shape} (shaped : Shaped ty shape) :
    shape.kind = .rawHandle ↔ ty.ident = some "AccountInfo" := by
  have raw : Account.wrapper? "AccountInfo" = some (.rawHandle, false) := rfl
  cases shaped with
  | composite ident hi hw =>
    rw [hi, Option.some.injEq]
    refine iff_of_false nofun ?_
    rintro rfl
    cases raw.symm.trans hw
  | plain ident kind hi hw =>
    rw [hi, Option.some.injEq]
    constructor
    · rintro rfl
      obtain ⟨-, h⟩ | ⟨-, h⟩ | ⟨-, h⟩ | ⟨rfl, -⟩ := Account.wrapper?_plain_cases hw
      · cases h
      · cases h
      · cases h
      · rfl
    · rintro rfl
      rw [raw, Option.some.injEq, Prod.mk.injEq] at hw
      exact hw.1.symm
  | holding ident kind inner hi hw =>
    rw [hi, Option.some.injEq]
    refine iff_of_false ?_ ?_
    · rintro rfl
      simpa using Account.wrapper?_holding_cases hw
    · rintro rfl
      cases raw.symm.trans hw
  | sysvar inner name hi =>
    rw [hi, Option.some.injEq]
    exact iff_of_false nofun (by decide)

/-! ### Structs of a source -/

/-- The types of the accounts that a struct declares, without `Option` and `Box`. -/
def accountTypes (members : List (Sibling Member)) : List TypeRef :=
  (declaredFields members).map fun declared => bareType declared.2.type

/-- A lifetime stands in the type of an account of the struct. -/
def Uses (members : List (Sibling Member)) (lifetime : String) : Prop :=
  ∃ ty ∈ accountTypes members, lifetime ∈ lifetimesIn ty.text

/-- The generated code adds the lifetime `'info` for a struct. -/
def BringsInfo (members : List (Sibling Member)) : Prop :=
  accountTypes members = [] ∨ ∃ ty ∈ accountTypes members, ty.ident = some "AccountInfo"

theorem exists_fieldType_iff {declared : List (List String × Rust.FieldDeclaration)}
    {fields : List Field} (classified : List.Forall₂ Classifies declared fields)
    (lifetime : String) :
    (∃ f ∈ fields, lifetime ∈ lifetimesIn (fieldType f)) ↔
      (lifetime = "'info" ∧
          ∃ g ∈ declared, (bareType g.2.type).ident = some "AccountInfo") ∨
        ∃ g ∈ declared, lifetime ∈ lifetimesIn (bareType g.2.type).text := by
  induction classified with
  | nil => simp
  | @cons g f declared fields hg _ ih =>
    obtain ⟨-, -, account, shaped⟩ := Account.classify_eq_ok hg
    have own : lifetime ∈ lifetimesIn (fieldType f) ↔
        (lifetime = "'info" ∧ (bareType g.2.type).ident = some "AccountInfo") ∨
          lifetime ∈ lifetimesIn (bareType g.2.type).text := by
      rw [lifetimesIn_fieldType, List.mem_append, ← kind_eq_rawHandle_iff shaped, account]
      by_cases raw : f.kind = .rawHandle <;> simp [Field.isRawHandle, raw]
    rw [List.exists_mem_cons_iff, List.exists_mem_cons_iff, List.exists_mem_cons_iff, own, ih,
      or_or_or_comm, ← and_or_left]

theorem mentions_iff {s : Struct} {fields : List Field} {members : List (Sibling Member)}
    (classified : List.Forall₂ Classifies (declaredFields members) fields)
    (hs : s.fields = fields.map fun f => (f.name, fieldType f)) (lifetime : String) :
    Mentions s lifetime ↔ (lifetime = "'info" ∧ BringsInfo members) ∨ Uses members lifetime := by
  have count := classified.length_eq
  unfold Mentions shown BringsInfo Uses accountTypes
  cases hf : fields with
  | nil =>
    have none : declaredFields members = [] := by
      rw [hf] at count
      exact List.length_eq_zero_iff.mp count
    simp [hs, hf, none, lifetimesIn_marker]
  | cons f others =>
    have some' : declaredFields members ≠ [] := by
      intro none
      rw [none, hf] at count
      cases count
    have filled : s.fields.isEmpty = false := by simp [hs, hf]
    have shownTypes : (∃ g ∈ s.fields.map fun (name, type) => ("pub " ++ name, type),
        lifetime ∈ lifetimesIn g.2) ↔ ∃ g ∈ fields, lifetime ∈ lifetimesIn (fieldType g) := by
      simp [hs]
    rw [filled, if_neg Bool.false_ne_true, shownTypes, exists_fieldType_iff classified]
    simp [some']

/-- A snapshot struct is generic in `'info`. It mentions `'info` if its context has no fields or
holds an `AccountInfo`, and besides just the lifetimes in the types of the accounts. So it is closed
if `'info` comes from one of these and no account's type names another lifetime, and whatever its
context declares for its fields, no lifetime but these and `'info` comes up. -/
theorem generated_lifetimes (code : SourceFile) (entry : Option SourceFile) (name : Option String)
    (a : Analysis) (h : analyze code entry name = .ok a) (config : Config) :
    ∀ s ∈ (snapshotsOf config a.idl).structs,
      ∃ d members, d ∈ (StructIndex.build code.items).definitions ∧ d.body = .named members ∧
        s.contextName = d.name ∧
        structLines s = ["pub struct " ++ s.name ++ "<'info> \x7b"] ++
          (shown s).map shownLine ++ ["\x7d"] ∧
        (∀ lifetime, Mentions s lifetime ↔
          (lifetime = "'info" ∧ BringsInfo members) ∨ Uses members lifetime) ∧
        (Closed s ↔ (BringsInfo members ∨ Uses members "'info") ∧
          ∀ lifetime, Uses members lifetime → IsNamed lifetime → lifetime = "'info") ∧
        ∀ declared : List String,
          (∀ lifetime, Uses members lifetime → IsNamed lifetime → lifetime ∈ declared) →
          ∀ lifetime, Mentions s lifetime → IsNamed lifetime → lifetime ∈ "'info" :: declared := by
  intro s hs
  rw [structs_snapshotsOf, List.mem_map] at hs
  obtain ⟨p, hp, rfl⟩ := hs
  have there := Occurrence.mem_of_mem_firsts contextKey a.idl.instructions p hp
  obtain ⟨d, members, hd, hb, hn, classified⟩ := Generation.exists_struct_of_group h there
  have mentions := mentions_iff (s := structOf p) classified rfl
  refine ⟨d, members, hd, hb, hn, structLines_eq_shown _, mentions, ?_, ?_⟩
  · constructor
    · intro closed
      obtain ⟨-, brings⟩ | uses := (mentions "'info").mp closed.used
      · exact ⟨.inl brings, fun l hl => closed.declared l ((mentions l).mpr (.inr hl))⟩
      · exact ⟨.inr uses, fun l hl => closed.declared l ((mentions l).mpr (.inr hl))⟩
    · intro ⟨source, only⟩
      refine ⟨?_, fun lifetime mentioned => ?_⟩
      · obtain brings | uses := source
        · exact (mentions "'info").mpr (.inl ⟨rfl, brings⟩)
        · exact (mentions "'info").mpr (.inr uses)
      · obtain ⟨rfl, -⟩ | uses := (mentions lifetime).mp mentioned
        · exact fun _ => rfl
        · exact only lifetime uses
  · intro declared formed lifetime mentioned isNamed
    obtain ⟨rfl, -⟩ | uses := (mentions lifetime).mp mentioned
    · exact List.mem_cons_self
    · exact List.mem_cons_of_mem _ (formed lifetime uses isNamed)

/-! ### Two structs that are not closed

The one struct holds a nested group and names no lifetime, the other one is generic in `'a`. -/

def noopType : TypeRef := ⟨"Noop", .typeIdentifier, ["Noop"], []⟩

def lentType : TypeRef := ⟨"Signer<'a>", .genericType, ["Signer"], [⟨"'a", .lifetime, [], []⟩]⟩

def plainHandler (name context : String) : Handler :=
  ⟨name, ⟨context, .typeIdentifier, [context], []⟩, []⟩

def plainFunction (h : Handler) : Rust.Item :=
  .function h.name
    [⟨"ctx", ⟨"Context<" ++ h.contextIdentity ++ ">", .genericType, ["Context"], [h.context]⟩⟩]

def openMembers : List (Sibling Member) := [.node (.field ⟨"noop", noopType⟩)]

def holdMembers : List (Sibling Member) := [.node (.field ⟨"owner", lentType⟩)]

def lentSource : SourceFile where
  items := [.attribute "program", .node (.module "vault"
      [.node (plainFunction (plainHandler "open" "Open")),
        .node (plainFunction (plainHandler "hold" "Hold"))]),
    .attribute "derive(Accounts)", .node (.struct "Noop" (.named [])),
    .attribute "derive(Accounts)", .node (.struct "Open" (.named openMembers)),
    .attribute "derive(Accounts)", .node (.struct "Hold" (.named holdMembers))]
  code := []

def lentAnalysis : Analysis where
  name := "vault"
  handlers := [plainHandler "open" "Open", plainHandler "hold" "Hold"]
  contexts :=
    [⟨"Open", "Open", [],
        [⟨"noop", "Noop", "Noop", .composite, none, false, false, false, false, false⟩]⟩,
      ⟨"Hold", "Hold", [],
        [⟨"owner", "Signer<'a>", "Signer<'a>", .signer, none, false, false, false, false, false⟩]⟩]
  address := none

theorem analyze_lentSource : analyze lentSource none none = .ok lentAnalysis := by
  have silent : Program.declaredLiteral none lentSource = none := by
    rw [Program.declaredLiteral_eq]
    rfl
  unfold analyze
  rw [silent]
  rfl

theorem not_uses_openMembers (lifetime : String) : ¬Uses openMembers lifetime := by
  have none : lifetimesIn "Noop" = [] := by cbv
  rintro ⟨ty, hty, there⟩
  obtain rfl : ty = noopType := List.mem_singleton.mp hty
  rw [noopType, none] at there
  cases there

theorem uses_holdMembers : Uses holdMembers "'a" := by
  have own : lifetimesIn "Signer<'a>" = ["'a"] := by cbv
  exact ⟨lentType, List.mem_singleton.mpr rfl, own ▸ List.mem_singleton.mpr rfl⟩

theorem generated_lifetimes_lentSource :
    analyze lentSource none none = .ok lentAnalysis ∧
      (snapshotsOf .standard lentAnalysis.idl).structs.map structLines =
        [["pub struct OpenSnapshot<'info> \x7b", "    pub noop: Noop,", "\x7d"],
          ["pub struct HoldSnapshot<'info> \x7b", "    pub owner: Signer<'a>,", "\x7d"]] ∧
      ∀ s ∈ (snapshotsOf .standard lentAnalysis.idl).structs, ¬Closed s := by
  refine ⟨analyze_lentSource, by decide +kernel, ?_⟩
  intro s hs closed
  obtain ⟨d, members, hd, hb, hn, -, -, only, -⟩ :=
    generated_lifetimes lentSource none none lentAnalysis analyze_lentSource .standard s hs
  obtain ⟨brings, named⟩ := only.mp closed
  have contexts : (snapshotsOf .standard lentAnalysis.idl).structs.map Struct.contextName =
      ["Open", "Hold"] := rfl
  have context : s.contextName ∈ ["Open", "Hold"] := contexts ▸ List.mem_map_of_mem hs
  have index : (StructIndex.build lentSource.items).definitions =
      [⟨"Noop", [], .named []⟩, ⟨"Open", [], .named openMembers⟩,
        ⟨"Hold", [], .named holdMembers⟩] := rfl
  rw [hn] at context
  simp only [index, List.mem_cons, List.not_mem_nil, or_false] at hd
  obtain rfl | rfl | rfl := hd
  · exact absurd context (by decide)
  · cases hb
    obtain (none | ⟨ty, hty, raw⟩) | uses := brings
    · cases none
    · obtain rfl : ty = noopType := List.mem_singleton.mp hty
      exact absurd raw (by decide)
    · exact not_uses_openMembers _ uses
  · cases hb
    exact absurd (named "'a" uses_holdMembers ⟨by decide, by decide⟩) (by decide)

end AnchorHarness.Snapshot
