import AnchorHarness.Program.Analysis
import Mathlib.Data.List.Infix

/-!
# Attributes and the nodes behind them

The walk back from a node ends at the nearest other node. So a list of siblings falls into
stretches, each a run of attributes and comments with the node behind it, and a node has the
attributes of its own stretch. What the walks from all nodes find is compared with one reading of
the list from front to back, which keeps the attributes that are still to be attached.
-/

namespace AnchorHarness.Rust

variable {α : Type}

/-! ### Runs -/

/-- What may stand between an attribute and its node. -/
def Sibling.IsLeading : Sibling α → Prop
  | .attribute _ => True
  | .comment => True
  | .node _ => False

theorem Sibling.leading_or_node (s : Sibling α) : s.IsLeading ∨ ∃ value, s = .node value := by
  obtain text | _ | value := s
  · exact .inl trivial
  · exact .inl trivial
  · exact .inr ⟨value, rfl⟩

def Sibling.attributeText? : Sibling α → Option String
  | .attribute text => some text
  | _ => none

def attributeTexts (siblings : List (Sibling α)) : List String :=
  siblings.filterMap Sibling.attributeText?

theorem attributeTexts_append (front back : List (Sibling α)) :
    attributeTexts (front ++ back) = attributeTexts front ++ attributeTexts back :=
  List.filterMap_append

/-- The longest run of attributes and comments at the end of a list. -/
structure IsLastRun (run siblings : List (Sibling α)) : Prop where
  isSuffix : run <:+ siblings
  leading : ∀ s ∈ run, s.IsLeading
  longest : ∀ other, other <:+ siblings → (∀ s ∈ other, s.IsLeading) → other <:+ run

theorem isLastRun_nil : IsLastRun [] ([] : List (Sibling α)) :=
  ⟨List.suffix_rfl, by simp, fun _ isSuffix _ => isSuffix⟩

theorem isLastRun_node (siblings : List (Sibling α)) (value : α) :
    IsLastRun [] (siblings ++ [.node value]) := by
  refine ⟨List.nil_suffix, by simp, fun other isSuffix leading => ?_⟩
  obtain empty | ⟨front, split, -⟩ := List.suffix_concat_iff.mp isSuffix
  · rw [empty]
  · exact (leading (.node value) (by simp [split])).elim

theorem IsLastRun.concat {run siblings : List (Sibling α)} (h : IsLastRun run siblings)
    {s : Sibling α} (hs : s.IsLeading) : IsLastRun (run ++ [s]) (siblings ++ [s]) := by
  refine ⟨List.suffix_concat_iff.mpr (.inr ⟨run, rfl, h.isSuffix⟩), fun x hx => ?_,
    fun other isSuffix leading => ?_⟩
  · obtain old | new := List.mem_append.mp hx
    · exact h.leading x old
    · rw [List.mem_singleton.mp new]
      exact hs
  · obtain empty | ⟨front, split, isSuffix⟩ := List.suffix_concat_iff.mp isSuffix
    · rw [empty]
      exact List.nil_suffix
    · have inRun := h.longest front isSuffix fun x hx => leading x (by simp [split, hx])
      exact List.suffix_concat_iff.mpr (.inr ⟨front, split, inRun⟩)

/-! ### The walk back -/

theorem outerAttributes_leading {s : Sibling α} (hs : s.IsLeading) (before : List (Sibling α)) :
    outerAttributes (s :: before) = outerAttributes before ++ attributeTexts [s] := by
  obtain text | _ | value := s
  · rw [outerAttributes_attribute]
    rfl
  · simp [attributeTexts, Sibling.attributeText?]
  · exact hs.elim

/-- The walk goes through a run whole. -/
theorem outerAttributes_append_run (front : List (Sibling α)) {run : List (Sibling α)}
    (leading : ∀ s ∈ run, s.IsLeading) :
    outerAttributes (front ++ run).reverse =
      outerAttributes front.reverse ++ attributeTexts run := by
  -- by the last sibling of the run, which the walk meets first
  induction run using List.reverseRecOn with
  | nil => simp [attributeTexts]
  | append_singleton run s ih =>
    rw [← List.append_assoc, List.reverse_concat, outerAttributes_leading (leading s (by simp)),
      ih fun x hx => leading x (by simp [hx]), attributeTexts_append, List.append_assoc]

/-- The walk finds the attributes of the longest run in front of it. -/
theorem exists_isLastRun (before : List (Sibling α)) :
    ∃ run, IsLastRun run before ∧ outerAttributes before.reverse = attributeTexts run := by
  induction before using List.reverseRecOn with
  | nil => exact ⟨[], isLastRun_nil, rfl⟩
  | append_singleton before s ih =>
    rw [List.reverse_concat]
    obtain leading | ⟨value, rfl⟩ := s.leading_or_node
    · obtain ⟨run, isLast, texts⟩ := ih
      refine ⟨run ++ [s], isLast.concat leading, ?_⟩
      rw [outerAttributes_leading leading, texts, attributeTexts_append]
    · exact ⟨[], isLastRun_node before value, outerAttributes_node value before.reverse⟩

/-! ### One reading from front to back -/

/-- Every node with its attributes, given the attributes that are still to be attached. -/
def attachTo (pending : List String) : List (Sibling α) → List (List String × α)
  | [] => []
  | .attribute text :: rest => attachTo (pending ++ [text]) rest
  | .comment :: rest => attachTo pending rest
  | .node value :: rest => (pending, value) :: attachTo [] rest

theorem attachedBehind_eq (before rest : List (Sibling α)) :
    attachedBehind before rest = attachTo (outerAttributes before) rest := by
  induction rest generalizing before with
  | nil => rfl
  | cons s rest ih => cases s <;> simp [attachedBehind, attachTo, ih]

theorem attached_eq (siblings : List (Sibling α)) : attached siblings = attachTo [] siblings :=
  attachedBehind_eq [] siblings

theorem attachedBehind_append (before front back : List (Sibling α)) :
    attachedBehind before (front ++ back) =
      attachedBehind before front ++ attachedBehind (front.reverse ++ before) back := by
  induction front generalizing before with
  | nil => rfl
  | cons s front ih => cases s <;> simp [attachedBehind, ih]

theorem attached_append (front back : List (Sibling α)) :
    attached (front ++ back) = attached front ++ attachTo (outerAttributes front.reverse) back := by
  rw [attached, attachedBehind_append, List.append_nil, attachedBehind_eq front.reverse]
  rfl

/-- A node parts what is in front of it from what is behind. -/
theorem attached_append_node (before : List (Sibling α)) (value : α) (behind : List (Sibling α)) :
    attached (before ++ .node value :: behind) =
      attached before ++ (outerAttributes before.reverse, value) :: attached behind := by
  rw [attached_append, attachTo, attached_eq behind]

theorem attachTo_of_leading {run : List (Sibling α)} (leading : ∀ s ∈ run, s.IsLeading)
    (pending : List String) : attachTo pending run = [] := by
  induction run generalizing pending with
  | nil => rfl
  | cons s run ih =>
    have ih := ih fun x hx => leading x (by simp [hx])
    obtain text | _ | value := s
    · exact ih (pending ++ [text])
    · exact ih pending
    · exact (leading (.node value) (by simp)).elim

theorem attached_append_run (front : List (Sibling α)) {run : List (Sibling α)}
    (leading : ∀ s ∈ run, s.IsLeading) : attached (front ++ run) = attached front := by
  rw [attached_append, attachTo_of_leading leading, List.append_nil]

/-! ### Where an attribute goes -/

/-- Behind an attribute there is a run with a node behind it, or a run to the end. -/
theorem exists_node_or_leading (behind : List (Sibling α)) :
    (∃ run value rest, behind = run ++ .node value :: rest ∧ ∀ s ∈ run, s.IsLeading) ∨
      ∀ s ∈ behind, s.IsLeading := by
  induction behind with
  | nil => exact .inr (by simp)
  | cons s behind ih =>
    obtain first | ⟨value, rfl⟩ := s.leading_or_node
    · obtain ⟨run, value, rest, split, leading⟩ | leading := ih
      · refine .inl ⟨s :: run, value, rest, by rw [split, List.cons_append], ?_⟩
        exact List.forall_mem_cons.mpr ⟨first, leading⟩
      · exact .inr (List.forall_mem_cons.mpr ⟨first, leading⟩)
    · exact .inl ⟨[], value, behind, rfl, by simp⟩

/-- An attribute goes to the node behind its run, whatever it says, and to no other node. -/
theorem attached_attribute (before : List (Sibling α)) (text : String) {run : List (Sibling α)}
    (leading : ∀ s ∈ run, s.IsLeading) (value : α) (rest : List (Sibling α)) :
    attached (before ++ .attribute text :: (run ++ .node value :: rest)) =
      attached before ++
        (outerAttributes before.reverse ++ text :: attributeTexts run, value) :: attached rest := by
  -- the attribute stands in the run of the node, behind those that are still to be attached
  have all : ∀ s ∈ Sibling.attribute text :: run, s.IsLeading :=
    List.forall_mem_cons.mpr ⟨trivial, leading⟩
  have split : before ++ Sibling.attribute text :: (run ++ .node value :: rest) =
      (before ++ .attribute text :: run) ++ .node value :: rest := by simp
  rw [split, attached_append_node, attached_append_run before all,
    outerAttributes_append_run before all]
  rfl

/-- The walks from the nodes and one from the end find each attribute once. -/
theorem flatMap_attached (siblings : List (Sibling α)) :
    (attached siblings).flatMap Prod.fst ++ outerAttributes siblings.reverse =
      attributeTexts siblings := by
  induction siblings using List.reverseRecOn with
  | nil => rfl
  | append_singleton siblings s ih =>
    rw [List.reverse_concat, attributeTexts_append, ← ih]
    obtain leading | ⟨value, rfl⟩ := s.leading_or_node
    · rw [attached_append_run siblings (List.forall_mem_singleton.mpr leading),
        outerAttributes_leading leading, List.append_assoc]
    · rw [attached_append_node, outerAttributes_node, List.flatMap_append]
      simp [attributeTexts, Sibling.attributeText?, attached, attachedBehind]

/-! ### Comments -/

/-- The second list is the first one with comments put in. -/
inductive Commented : List (Sibling α) → List (Sibling α) → Prop where
  | nil : Commented [] []
  | keep {siblings others : List (Sibling α)} (s : Sibling α) :
      Commented siblings others → Commented (s :: siblings) (s :: others)
  | insert {siblings others : List (Sibling α)} :
      Commented siblings others → Commented siblings (.comment :: others)

theorem attachTo_of_commented {siblings others : List (Sibling α)} (h : Commented siblings others)
    (pending : List String) : attachTo pending others = attachTo pending siblings := by
  induction h generalizing pending with
  | nil => rfl
  | keep s _ ih => cases s <;> simp [attachTo, ih]
  | insert _ ih => exact ih pending

theorem attached_of_commented {siblings others : List (Sibling α)}
    (h : Commented siblings others) : attached others = attached siblings := by
  rw [attached_eq, attached_eq, attachTo_of_commented h]

/-! ### Attributes kept apart -/

/-- A node has the attributes of the longest run of attributes and comments in front of it. An
attribute goes to the next node, in its place and whatever it says, and changes nothing for the
others; the nodes have each attribute once in all, but for those with no node behind them. Comments
play no part. -/
theorem attributes_kept_apart (siblings : List (Sibling α)) :
    (∀ before value behind, siblings = before ++ .node value :: behind →
      ∃ run, IsLastRun run before ∧ outerAttributes before.reverse = attributeTexts run ∧
        attached siblings = attached before ++ (attributeTexts run, value) :: attached behind) ∧
    (∀ before text behind, siblings = before ++ .attribute text :: behind →
      (∃ run value rest, behind = run ++ .node value :: rest ∧ (∀ s ∈ run, s.IsLeading) ∧
        ∀ text', attached (before ++ .attribute text' :: behind) =
          attached before ++
            (outerAttributes before.reverse ++ text' :: attributeTexts run, value) ::
              attached rest) ∨
      (∀ s ∈ behind, s.IsLeading) ∧
        ∀ text', attached (before ++ .attribute text' :: behind) = attached before) ∧
    (attached siblings).flatMap Prod.fst ++ outerAttributes siblings.reverse =
      attributeTexts siblings ∧
    ∀ others, Commented siblings others → attached others = attached siblings := by
  refine ⟨fun before value behind split => ?_, fun before text behind _ => ?_,
    flatMap_attached siblings, fun others h => attached_of_commented h⟩
  · obtain ⟨run, isLast, texts⟩ := exists_isLastRun before
    refine ⟨run, isLast, texts, ?_⟩
    rw [split, attached_append_node, texts]
  · obtain ⟨run, value, rest, split, leading⟩ | leading := exists_node_or_leading behind
    · refine .inl ⟨run, value, rest, split, leading, fun text' => ?_⟩
      rw [split, attached_attribute before text' leading]
    · refine .inr ⟨leading, fun text' => ?_⟩
      exact attached_append_run before (List.forall_mem_cons.mpr ⟨trivial, leading⟩)

def vaultModule : Item := .module "vault" []

def openStruct : Item := .struct "Open" .unnamed

/-- A marked module, a struct with two attributes and an attribute that nothing follows. -/
def vaultItems : List (Sibling Item) :=
  [.attribute "program", .comment, .node vaultModule, .attribute "derive(Accounts)", .comment,
    .attribute "repr(C)", .node openStruct, .attribute "cfg(test)"]

def commentedItems : List (Sibling Item) :=
  [.comment, .attribute "program", .comment, .comment, .node vaultModule,
    .attribute "derive(Accounts)", .comment, .comment, .attribute "repr(C)", .comment,
    .node openStruct, .attribute "cfg(test)", .comment]

theorem commented_vaultItems : Commented vaultItems commentedItems :=
  .insert <| .keep _ <| .keep _ <| .insert <| .keep _ <| .keep _ <| .keep _ <| .insert <|
    .keep _ <| .insert <| .keep _ <| .keep _ <| .insert .nil

theorem attributes_kept_apart_vaultItems :
    (∃ run, IsLastRun run (vaultItems.take 6) ∧
      attributeTexts run = ["derive(Accounts)", "repr(C)"]) ∧
    (∀ text, attached (vaultItems.take 5 ++ .attribute text :: vaultItems.drop 6) =
      [(["program"], vaultModule), (["derive(Accounts)", text], openStruct)]) ∧
    attached commentedItems =
      [(["program"], vaultModule), (["derive(Accounts)", "repr(C)"], openStruct)] := by
  obtain ⟨runs, goals, -, comments⟩ := attributes_kept_apart vaultItems
  have atStruct : vaultItems = vaultItems.take 6 ++ .node openStruct :: vaultItems.drop 7 := rfl
  have atLast : vaultItems = vaultItems.take 5 ++ .attribute "repr(C)" :: vaultItems.drop 6 := rfl
  obtain ⟨run, isLast, texts, -⟩ := runs _ _ _ atStruct
  refine ⟨⟨run, isLast, texts.symm⟩, fun text => ?_, comments _ commented_vaultItems⟩
  have behind : vaultItems.drop 6 = .node openStruct :: [.attribute "cfg(test)"] := rfl
  obtain ⟨run, value, rest, split, leading, goes⟩ | ⟨leading, -⟩ := goals _ _ _ atLast
  · rw [behind] at split
    cases run with
    | nil =>
      obtain ⟨rfl, rfl⟩ : openStruct = value ∧ [.attribute "cfg(test)"] = rest := by
        simpa using split
      exact goes text
    | cons s run =>
      obtain ⟨rfl, -⟩ : .node openStruct = s ∧ _ := List.cons.inj split
      exact (leading (.node openStruct) (by simp)).elim
  · exact (leading (.node openStruct) (by simp [behind])).elim

/-! ### Fields and modules -/

/-- A field has the attributes of its own run. -/
theorem declaredFields_append_field (before : List (Sibling Member)) (d : FieldDeclaration)
    (behind : List (Sibling Member)) :
    declaredFields (before ++ .node (.field d) :: behind) =
      declaredFields before ++ (outerAttributes before.reverse, d) :: declaredFields behind := by
  rw [declaredFields, attached_append_node, List.filterMap_append]
  rfl

/-- No attribute gets from one side of a separator to the other. -/
theorem declaredFields_append_separator (before behind : List (Sibling Member)) :
    declaredFields (before ++ .node .separator :: behind) =
      declaredFields before ++ declaredFields behind := by
  rw [declaredFields, attached_append_node, List.filterMap_append]
  rfl

theorem declaredFields_intercalate (pieces : List (List (Sibling Member))) :
    declaredFields ([Sibling.node Member.separator].intercalate pieces) =
      pieces.flatMap declaredFields := by
  induction pieces with
  | nil => rfl
  | cons piece pieces ih =>
    cases pieces with
    | nil => simp
    | cons next pieces =>
      rw [List.intercalate_cons_cons, List.append_assoc, List.singleton_append,
        declaredFields_append_separator, ih]
      rfl

/-- The fields of a block are read off piece by piece, as the commas part it. -/
theorem declaredFields_membersOf (body : List Tree) :
    declaredFields (membersOf body) =
      (Text.cutAll (Tree.isSymbol ",") (withoutMarkComments body)).flatMap fun piece =>
        declaredFields (membersOfPiece piece) := by
  rw [membersOf, declaredFields_intercalate, List.flatMap_map]

end AnchorHarness.Rust

namespace AnchorHarness.Program

open Rust (Sibling Item attached outerAttributes attributePath)

/-- Whether a module is the marked one, its own run of attributes decides. -/
theorem markedModules_append_node (before : List (Sibling Item)) (item : Item)
    (behind : List (Sibling Item)) :
    markedModules (before ++ .node item :: behind) =
      markedModules before ++
        (if (outerAttributes before.reverse).any fun a => attributePath a = programMark then
          moduleOf? item else none).toList ++ markedModules behind := by
  rw [markedModules, Rust.attached_append_node, List.filterMap_append, List.append_assoc,
    List.filterMap_cons]
  congr 1
  dsimp only
  split
  · next h =>
    rw [h]
    rfl
  · next h =>
    rw [h]
    rfl

end AnchorHarness.Program
