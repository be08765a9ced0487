import AnchorHarness.CommandLine.Run
import AnchorHarness.Proofs.Console.Plain
import AnchorHarness.Proofs.Harness.AccountIds
import AnchorHarness.Proofs.Harness.Bindings
import AnchorHarness.Proofs.Session

/-!
# Bound roles

A role that is bound takes effect in the programs that have it, and is warned about if there are
none. The warnings are markup, into which the roles are put without being escaped. So a role is
shown as it is if its characters are plain; but a bracket in a role may be taken for a tag, which is
not shown, and a tag that closes nothing ends the run, before the roles behind it are warned about.
-/

namespace AnchorHarness.CommandLine

open Console (IsPlain beginsTag)
open Harness (Bindings Strategy parseBindings registryOf unknownRoles roleText strategyText
  givenStrategy storageLines storageText registryLines declarationsOf)
open Program (Idl)
open SessionM (told)
open Text (indent)

/-! ### Warnings -/

def unknownRole (role : String) : String := "Warning: no account role named `" ++ role ++ "`\n"

/-- The warning about a role, as it is written in markup. -/
def unknownRoleMarkup (role : String) : String :=
  "[yellow]Warning:[/yellow] no account role named `" ++ role ++ "`"

theorem sayUnknownRoles_eq (bindings : Bindings) (idl : Idl) :
    sayUnknownRoles bindings idl =
      (unknownRoles bindings idl).forM fun role => SessionM.say .err (unknownRoleMarkup role) := rfl

theorem unknownRoleMarkup_eq (role : String) :
    unknownRoleMarkup role =
      "[yellow]Warning:[/yellow]" ++ (" no account role named `" ++ role ++ "`") := by
  unfold unknownRoleMarkup
  simp [← String.toList_inj]

theorem unknownRole_eq (role : String) :
    unknownRole role = "Warning:" ++ (" no account role named `" ++ role ++ "`") ++ "\n" := by
  unfold unknownRole
  simp [← String.toList_inj]

theorem message_unknownRoleMarkup {role : String} (plain : ∀ c ∈ role.toList, IsPlain c) :
    Console.message (unknownRoleMarkup role) = .ok (unknownRole role) := by
  have front : ∀ c ∈ " no account role named `".toList, IsPlain c := by simp [IsPlain]
  have behind : ∀ c ∈ "`".toList, IsPlain c := by simp [IsPlain]
  have whole : ∀ c ∈ (" no account role named `" ++ role ++ "`").toList, IsPlain c := by
    intro c hc
    simp only [String.toList_append, List.mem_append] at hc
    rcases hc with (hc | hc) | hc
    · exact front c hc
    · exact plain c hc
    · exact behind c hc
  rw [unknownRoleMarkup_eq, Console.message_warning (by simp) whole, ← unknownRole_eq]

def tagRole (c : Char) (body : List Char) : String :=
  String.ofList ('[' :: c :: (body ++ [']']))

theorem chunks_tagRole {c : Char} {body : List Char} (begins : beginsTag c = true)
    (opening : '[' ∉ body) (closing : ']' ∉ body) :
    Console.chunks (" no account role named `" ++ tagRole c body ++ "`").toList =
      [.plain " no account role named `".toList, .bracket 0 (c :: body), .plain "`".toList] := by
  have text : (" no account role named `" ++ tagRole c body ++ "`").toList =
      " no account role named `".toList ++ '[' :: c :: (body ++ ']' :: "`".toList) := by
    simp only [String.toList_append, tagRole, String.toList_ofList, List.append_assoc,
      List.cons_append, List.nil_append]
  rw [text, Console.chunks_append (by decide) (by decide), Console.chunks_tag begins opening closing,
    Console.foldr_consPlain_bracket (by decide), Console.chunks_of_not_mem (by decide) (by decide)]

/-- A role that reads as an opening tag is not shown, so that its warning names none. -/
theorem message_openingRole {c : Char} {body : List Char} (begins : beginsTag c = true)
    (other : c ≠ '/') (opening : '[' ∉ body) (closing : ']' ∉ body) :
    Console.message (unknownRoleMarkup (tagRole c body)) = .ok (unknownRole "") := by
  have rendered : Console.showChunks 25 []
      (Console.chunks (" no account role named `" ++ tagRole c body ++ "`").toList) =
        .ok (" no account role named `".toList ++ "`".toList) := by
    rw [chunks_tagRole begins opening closing, Console.showChunks_plain,
      Console.showChunks_tag (Console.afterTag_of_ne other _ body _), Console.showChunks_plain]
    rfl
  have still : '\t' ∉ ("Warning:" ++ (" no account role named `" ++ "`")).toList := by decide
  rw [Console.message, unknownRoleMarkup_eq, Console.render_warning, rendered, unknownRole_eq]
  simp only [Except.map, String.ofList_append, String.ofList_toList, String.append_empty,
    Console.expandTabs_of_not_mem still]

/-- A role that reads as a closing tag closes nothing, so that its warning cannot be shown. -/
theorem message_closingRole {name : List Char} (opening : '[' ∉ name) (closing : ']' ∉ name)
    (nonempty : (Console.tagName name).isEmpty = false) :
    Console.message (unknownRoleMarkup (tagRole '/' name)) =
      .error (.unmatched (String.ofList ('/' :: name)) 49) := by
  rw [Console.message, unknownRoleMarkup_eq, Console.render_warning,
    chunks_tagRole (by decide) opening closing, Console.showChunks_plain,
    Console.showChunks_of_fault (Console.afterTag_of_unmatched nonempty _)]
  rfl

/-- The warning about the role names it. -/
def Legible (role : String) : Prop :=
  Console.message (unknownRoleMarkup role) = .ok (unknownRole role)

theorem forall₂_message_iff (roles : List String) :
    List.Forall₂ (fun role text => Console.message (unknownRoleMarkup role) = .ok text) roles
      (roles.map unknownRole) ↔ ∀ role ∈ roles, Legible role := by
  rw [List.forall₂_map_right_iff, List.forall₂_same]
  rfl

/-- The warnings name all unknown roles just if each of them names its own. -/
theorem perform_sayUnknownRoles_iff (bindings : Bindings) (idl : Idl) (s : Session) :
    (sayUnknownRoles bindings idl).perform s =
        (.ok (), told .err ((unknownRoles bindings idl).map unknownRole) s) ↔
      ∀ role ∈ unknownRoles bindings idl, Legible role := by
  rw [sayUnknownRoles_eq, SessionM.perform_forM_say_eq_ok, ← forall₂_message_iff]
  constructor
  · rintro ⟨texts, shown, same⟩
    rwa [SessionM.told_inj same] at shown
  · intro shown
    exact ⟨_, shown, rfl⟩

/-! ### Bindings -/

/-- In each program a role is stored as the last text says that names it. A role that is named takes
effect in a program that has it, or no program has it and it is unknown. The warnings name the
unknown roles in order, each once, just if each is legible, as are roles with plain characters. A
role that makes no markup interrupts, and those behind it are not warned about. -/
theorem bindings_settled (texts : List String) (bindings : Bindings) (idl : Idl)
    (read : parseBindings texts = .ok bindings) :
    (∀ text ∈ texts, ∃ s, Strategy.parse (strategyText text) = .ok s) ∧
      (∀ p ∈ idl.programs,
        (∃ front, declarationsOf bindings p = front ++ [.storage (registryOf bindings p)]) ∧
        storageLines (registryOf bindings p) =
          registryLines ((registryOf bindings p).roles.map fun role =>
            indent ++ role ++ ": AccountsStorage<" ++ storageText (givenStrategy role texts) ++
              ">,")) ∧
      (unknownRoles bindings idl).Pairwise (· < ·) ∧
      (∀ role, role ∈ unknownRoles bindings idl ↔ (∃ text ∈ texts, roleText text = role) ∧
        ∀ p ∈ idl.programs, role ∉ (registryOf bindings p).roles) ∧
      (∀ role, (∃ text ∈ texts, roleText text = role) →
        ((∃ p ∈ idl.programs, ∃ s, (role, some s) ∈ (registryOf bindings p).entries) ↔
          role ∉ unknownRoles bindings idl)) ∧
      (∀ s, (sayUnknownRoles bindings idl).perform s =
          (.ok (), told .err ((unknownRoles bindings idl).map unknownRole) s) ↔
        ∀ role ∈ unknownRoles bindings idl, Legible role) ∧
      (∀ role : String, (∀ c ∈ role.toList, IsPlain c) → Legible role) ∧
      ∀ before role after fault, unknownRoles bindings idl = before ++ role :: after →
        (∀ other ∈ before, Legible other) →
        Console.message (unknownRoleMarkup role) = .error fault → ∀ s,
          (sayUnknownRoles bindings idl).perform s =
            (.error (.markup fault), told .err (before.map unknownRole) s) := by
  have given := Harness.given_of_parseBindings read
  refine ⟨fun text ht => (Harness.exists_strategy_of_parseBindings read text ht).2, ?_,
    Harness.pairwise_unknownRoles given.distinct idl, fun role => ?_,
    fun role named => Harness.bound_iff_not_mem_unknownRoles given idl named,
    perform_sayUnknownRoles_iff bindings idl, fun role plain => message_unknownRoleMarkup plain, ?_⟩
  · intro p _
    obtain ⟨front, last, -⟩ := Harness.declarationsOf_eq_append_storage bindings p
    refine ⟨⟨front, last⟩, ?_⟩
    simp only [Harness.storageLines_registryOf, given.strategies]
  · rw [Harness.mem_unknownRoles, given.named]
  · intro before role after fault split legible failed s
    rw [sayUnknownRoles_eq, split]
    exact SessionM.perform_forM_say_of_fault .err unknownRoleMarkup
      ((forall₂_message_iff before).mpr legible) failed after s

/-! ### A role that is taken for a tag -/

def bookProgram : Program.ProgramIdl :=
  ⟨"ledger", none, [(⟨"close", []⟩, ⟨"Close", "Close<'info>", [Harness.signerField "book"]⟩)]⟩

def bookTexts : List String :=
  [" book=PdaStore", "[/author]=Keypair", "zed=MintStore", "book =Keypair"]

def bookBindings : Bindings :=
  [("book", .keypair), ("[/author]", .keypair), ("zed", .mintStore)]

theorem parse_bookTexts : parseBindings bookTexts = .ok bookBindings := by rfl

theorem unknownRoles_bookProgram :
    unknownRoles bookBindings ⟨[bookProgram]⟩ = ["[/author]", "zed"] := by
  have unsorted : unknownRoles bookBindings ⟨[bookProgram]⟩ = ["[/author]", "zed"].mergeSort := by
    rfl
  rw [unsorted, List.mergeSort_of_pairwise (by decide)]

def quietSession : Session := ⟨.empty, [], [], []⟩

/-- Two roles are unknown, but the first one reads as a closing tag, and neither is warned about. A
role that reads as an opening tag has a warning that does not name it. -/
theorem bindings_settled_bookProgram :
    parseBindings bookTexts = .ok bookBindings ∧
      unknownRoles bookBindings ⟨[bookProgram]⟩ = ["[/author]", "zed"] ∧
      (sayUnknownRoles bookBindings ⟨[bookProgram]⟩).perform quietSession =
        (.error (.markup (.unmatched "/author" 49)), quietSession) ∧
      Console.message (unknownRoleMarkup "[author]") = .ok (unknownRole "") := by
  obtain ⟨-, -, -, -, -, -, -, fails⟩ :=
    bindings_settled bookTexts bookBindings ⟨[bookProgram]⟩ parse_bookTexts
  have closes : tagRole '/' "author".toList = "[/author]" := by decide
  have opens : tagRole 'a' "uthor".toList = "[author]" := by decide
  have failed : Console.message (unknownRoleMarkup "[/author]") =
      .error (.unmatched "/author" 49) := by
    rw [← closes, message_closingRole (by decide) (by decide) (by decide)]
    rfl
  refine ⟨parse_bookTexts, unknownRoles_bookProgram, ?_, ?_⟩
  · rw [fails [] "[/author]" ["zed"] _ unknownRoles_bookProgram (by simp) failed]
    rfl
  · rw [← opens, message_openingRole (by decide) (by decide) (by decide) (by decide)]

end AnchorHarness.CommandLine
