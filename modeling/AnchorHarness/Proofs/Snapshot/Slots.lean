import AnchorHarness.Proofs.Fallible
import AnchorHarness.Proofs.Snapshot.Evaluation

/-!
# How a snapshot reads its slots

What a snapshot is to be over a row of slots, said without the code that fills it: the first slot
belongs to the first field that is no nested group, the second one to the next such field, and so
on; the fields are settled in order and the first one that fails decides. `run_fillingCode` says
that the generated code does this.
-/

namespace AnchorHarness.Snapshot

open Account (Field)
open Program (AccountGroup)

variable {α κ β : Type} [DecidableEq κ]

/-! ### The reading -/

/-- What a field makes of an account that is there. -/
def taken (w : World α κ β) (f : Field) (a : α) : Except Stop (Value α κ β) :=
  match entryFor f with
  | .ok entry =>
    match w.entry entry.method a with
    | some b => .ok (.typed b)
    | none => .error (.left ⟨.cannotDeserializeAccount, f.name⟩)
  | .error _ => .ok (if f.isRawHandle then .account a else .unchecked a)

/-- What a field makes of its slot; `none` if the row has ended before it. -/
def settled (w : World α κ β) (sentinel : String) (f : Field) :
    Option (Option α) → Except Stop (Value α κ β)
  | none => .error (.left ⟨.notEnoughAccounts, f.name⟩)
  | some none =>
    if f.isOptional then .ok .none else .error (.left ⟨.accountNotFound, f.name⟩)
  | some (some a) =>
    if f.isOptional then
      if w.key a = w.constant sentinel then .ok .none else (taken w f a).map .some
    else taken w f a

/-- The number of fields that take a slot. -/
def slotCount (fields : List Field) : Nat := (fields.filter fun f => !f.isComposite).length

/-- The value of the field at a place among the fields of a group. -/
def fieldValue (w : World α κ β) (sentinel : String) (slots : List (Option α))
    (fields : List Field) (f : Field) (place : Nat) : Except Stop (Value α κ β) :=
  if f.isComposite then w.manual f.name
  else settled w sentinel f slots[slotCount (fields.take place)]?

/-- The values of all fields under their names, settled in order. -/
def fieldValues (w : World α κ β) (sentinel : String) (slots : List (Option α))
    (fields : List Field) : Except Stop (Record α κ β) :=
  fields.zipIdx.mapM fun (f, place) =>
    (fieldValue w sentinel slots fields f place).map fun v => (f.name, v)

/-- The struct that the values of the fields make up. A name that occurs twice stands for what it
was bound to last. -/
def recordOf (values : Record α κ β) : Record α κ β :=
  if values.isEmpty then [("_marker", .marker)]
  else values.map fun (name, value) => (name, (Table.find? name values.reverse).getD value)

/-- The struct for a group of accounts over a row of slots. -/
def snapshotOf (w : World α κ β) (sentinel : String) (slots : List (Option α))
    (group : AccountGroup) : Except Stop (Record α κ β) :=
  (fieldValues w sentinel slots group.fields).map recordOf

/-! ### Reading from a cursor -/

def nextValue (w : World α κ β) (sentinel : String) (slots : List (Option α)) (f : Field) :
    Except Stop (Value α κ β) :=
  if f.isComposite then w.manual f.name else settled w sentinel f slots.head?

/-- The values of fields that begin to read at the front of a row. -/
def valuesFrom (w : World α κ β) (sentinel : String) (slots : List (Option α)) :
    List Field → Except Stop (Record α κ β)
  | [] => .ok []
  | f :: fields => do
    let v ← nextValue w sentinel slots f
    let values ← valuesFrom w sentinel (if f.isComposite then slots else slots.tail) fields
    .ok ((f.name, v) :: values)

theorem slotCount_append (a b : List Field) : slotCount (a ++ b) = slotCount a + slotCount b := by
  simp [slotCount]

/-- Reading by places is reading from a cursor: after the fields in front, the cursor stands behind
as many slots as they take. -/
theorem mapM_fieldValue (w : World α κ β) (sentinel : String) (slots : List (Option α))
    (front fields : List Field) :
    ((fields.zipIdx front.length).mapM fun (f, place) =>
      (fieldValue w sentinel slots (front ++ fields) f place).map fun v => (f.name, v)) =
    valuesFrom w sentinel (slots.drop (slotCount front)) fields := by
  induction fields generalizing front with
  | nil => rfl
  | cons f fields ih =>
    have behind := ih (front ++ [f])
    rw [List.append_assoc, List.singleton_append, List.length_append, List.length_singleton,
      slotCount_append] at behind
    have place : (front ++ f :: fields).take front.length = front := by simp
    rw [List.zipIdx_cons, List.mapM_cons]
    simp only [fieldValue, place] at behind ⊢
    rw [behind, valuesFrom, nextValue]
    by_cases h : f.isComposite = true
    · have none_taken : slotCount [f] = 0 := by simp [slotCount, h]
      simp only [none_taken, Nat.add_zero, if_pos h]
      cases w.manual f.name <;> rfl
    · have one_taken : slotCount [f] = 1 := by simp [slotCount, h]
      simp only [one_taken, if_neg h, List.tail_drop, List.head?_drop]
      cases settled w sentinel f slots[slotCount front]? <;> rfl

theorem fieldValues_eq (w : World α κ β) (sentinel : String) (slots : List (Option α))
    (fields : List Field) :
    fieldValues w sentinel slots fields = valuesFrom w sentinel slots fields :=
  mapM_fieldValue w sentinel slots [] fields

/-! ### One step -/

/-- No typed entry is the function that makes unchecked accounts. -/
theorem entryFor_method_ne (f : Field) (entry : Entry) (h : entryFor f = .ok entry) :
    entry.method ≠ uncheckedMethod := by
  unfold entryFor at h
  cases hk : f.kind <;> simp only [hk, reduceCtorEq, Except.ok.injEq] at h <;> subst h
  case typedAccount => cases f.isInterface <;> (dsimp only [wrapperEntry]; decide)
  all_goals (dsimp only [wrapperEntry]; decide)

/-- A field that takes a slot has a typed entry, is a bare handle or is an unchecked account. -/
theorem entryFor_cases (f : Field) (h : f.isComposite = false) :
    (∃ entry, entryFor f = .ok entry) ∨
      (entryFor f = .error ⟨.rawHandle⟩ ∧ f.isRawHandle = true) ∨
      (entryFor f = .error ⟨.uncheckedAccount⟩ ∧ f.isRawHandle = false) := by
  unfold entryFor Field.isRawHandle
  cases hk : f.kind
  case composite => simp [Field.isComposite, hk] at h
  all_goals simp

theorem chain_append (sentinel : String) (front behind : List Link) :
    chain sentinel (front ++ behind) = behind.foldl (Link.onto sentinel) (chain sentinel front) :=
  List.foldl_append

/-- The calls that fetch the next account leave the function when the row has ended, and move the
cursor on by one slot otherwise. -/
theorem eval_nextAccount (w : World α κ β) (sentinel field : String) (env : Environment α κ β)
    (slots : List (Option α)) :
    (chain sentinel (nextAccount field)).eval w env (some slots) =
      match slots with
      | [] => .error (.left ⟨.notEnoughAccounts, field⟩)
      | slot :: rest => .ok (.ofSlot slot, some rest) := by
  rcases slots with _ | ⟨_ | a, rest⟩ <;> rfl

theorem eval_provided (w : World α κ β) (sentinel : String) (a : α) (env : Environment α κ β)
    (c : Cursor α) :
    (provided sentinel).eval w (("acc", .account a) :: env) c =
      .ok (.truth (w.key a ≠ w.constant sentinel), c) := rfl

/-- Once the function is left, no further call of a chain is reached. -/
theorem eval_foldl_onto_error (w : World α κ β) (sentinel : String) (env : Environment α κ β)
    (c : Cursor α) (stop : Stop) (links : List Link) (e : Expression)
    (he : e.eval w env c = .error stop) :
    (links.foldl (Link.onto sentinel) e).eval w env c = .error stop := by
  induction links generalizing e with
  | nil => exact he
  | cons l links ih =>
    have one : (l.onto sentinel e).eval w env c = .error stop := by
      cases l <;> simp [Link.onto, Expression.eval, he, bind, Except.bind]
    exact ih (l.onto sentinel e) one

section
variable (w : World α κ β) (sentinel : String) (f : Field) (e : Expression)
  (env : Environment α κ β) (slot : Option α) (c c' : Cursor α)

theorem eval_handle (hr : entryFor f = .error ⟨.rawHandle⟩) (hf : f.isRawHandle = true)
    (he : e.eval w env c = .ok (.ofSlot slot, c')) :
    ((if f.isOptional then [.dropSentinel] else [required f.name]).foldl
        (Link.onto sentinel) e).eval w env c =
      (settled w sentinel f (some slot)).map fun v => (v, c') := by
  cases ho : f.isOptional <;> cases slot
  case true.some a =>
    by_cases hk : w.key a = w.constant sentinel <;>
      simp [Link.onto, Expression.eval, eval_provided, he, settled, taken, ho, hr, hf, hk,
        Value.ofSlot, bind, Except.bind, Except.map]
  all_goals
    simp [Link.onto, required, Expression.eval, he, settled, taken, ho, hr, hf, Value.ofSlot, bind,
      Except.bind, Except.map]

/-- The calls for an unchecked account. The one that makes it comes behind the filter, so that it is
not applied to the account that stands for "not provided". -/
theorem eval_unchecked (hr : entryFor f = .error ⟨.uncheckedAccount⟩) (hf : f.isRawHandle = false)
    (he : e.eval w env c = .ok (.ofSlot slot, c')) :
    ((if f.isOptional then [.dropSentinel, .apply uncheckedMethod]
        else [.apply uncheckedMethod, required f.name]).foldl (Link.onto sentinel) e).eval w env c =
      (settled w sentinel f (some slot)).map fun v => (v, c') := by
  cases ho : f.isOptional <;> cases slot
  case true.some a =>
    by_cases hk : w.key a = w.constant sentinel <;>
      simp [Link.onto, Expression.eval, eval_provided, he, settled, taken, ho, hr, hf, hk,
        Value.ofSlot, World.call, bind, Except.bind, Except.map]
  all_goals
    simp [Link.onto, required, Expression.eval, he, settled, taken, ho, hr, hf, Value.ofSlot,
      World.call, bind, Except.bind, Except.map]

/-- The calls for a typed account. A missing account is a fault before a failed entry is one, and a
failed entry is a fault also where the account may be missing. -/
theorem eval_typed (entry : Entry) (hr : entryFor f = .ok entry)
    (he : e.eval w env c = .ok (.ofSlot slot, c')) :
    ((if f.isOptional then
          [.applyProvided entry.method ⟨.cannotDeserializeAccount, f.name⟩
            ⟨.optionalAccountNotProvided, f.name⟩, .transpose, .forgiveMissing]
        else
          [.apply entry.method, required f.name,
            .failWith ⟨.cannotDeserializeAccount, f.name⟩]).foldl (Link.onto sentinel) e).eval w env c =
      (settled w sentinel f (some slot)).map fun v => (v, c') := by
  have hm := entryFor_method_ne f entry hr
  cases ho : f.isOptional <;> cases slot
  case true.some a =>
    by_cases hk : w.key a = w.constant sentinel <;> cases hb : w.entry entry.method a <;>
      simp [Link.onto, Expression.eval, eval_provided, Table.find?, he, settled, taken, ho, hr, hm, hk,
        hb, Value.ofSlot, World.call, bind, Except.bind, Except.map]
  case false.some a =>
    cases hb : w.entry entry.method a <;>
      simp [Link.onto, required, Expression.eval, he, settled, taken, ho, hr, hm, hb, Value.ofSlot,
        World.call, bind, Except.bind, Except.map]
  all_goals
    simp [Link.onto, required, Expression.eval, he, settled, ho, Value.ofSlot, bind, Except.bind,
      Except.map]

end

/-- The value that the statement of a field binds is what the field makes of the next slot. -/
theorem eval_statementFor (w : World α κ β) (sentinel : String) (f : Field)
    (env : Environment α κ β) (slots : List (Option α)) (h : f.isComposite = false) :
    ∃ declared links, statementFor (stepFor f) = .bind f.name declared links ∧
      (chain sentinel links).eval w env (some slots) =
        (settled w sentinel f slots.head?).map fun v => (v, some slots.tail) := by
  -- All statements begin alike, so that the end of the row needs no look at the kind of the field.
  suffices ∃ declared links,
      statementFor (stepFor f) = .bind f.name declared (nextAccount f.name ++ links) ∧
        ∀ e slot, ∀ c c' : Cursor α, e.eval w env c = .ok (.ofSlot slot, c') →
          (links.foldl (Link.onto sentinel) e).eval w env c =
            (settled w sentinel f (some slot)).map fun v => (v, c') by
    obtain ⟨declared, links, hs, hl⟩ := this
    refine ⟨declared, nextAccount f.name ++ links, hs, ?_⟩
    have front := eval_nextAccount w sentinel f.name env slots
    rw [chain_append]
    cases slots with
    | nil => exact eval_foldl_onto_error w sentinel env _ _ links _ front
    | cons slot slots => exact hl _ slot _ _ front
  rcases entryFor_cases f h with ⟨entry, he⟩ | ⟨he, hr⟩ | ⟨he, hr⟩
  · refine ⟨some (if f.isOptional then "Option<" ++ entry.returnType ++ ">" else entry.returnType), _,
      ?_, fun e slot c c' => eval_typed w sentinel f e env slot c c' entry he⟩
    cases ho : f.isOptional <;> simp [statementFor, stepFor, modeFor, he, ho]
  · refine ⟨none, _, ?_, fun e slot c c' => eval_handle w sentinel f e env slot c c' he hr⟩
    cases ho : f.isOptional <;> simp [statementFor, stepFor, modeFor, he, ho]
  · refine ⟨none, _, ?_, fun e slot c c' => eval_unchecked w sentinel f e env slot c c' he hr⟩
    cases ho : f.isOptional <;> simp [statementFor, stepFor, modeFor, he, ho]

theorem statementFor_composite (f : Field) (h : f.isComposite = true) :
    statementFor (stepFor f) = .todo f.name := by
  have hk : f.kind = .composite := by simpa [Field.isComposite] using h
  simp [statementFor, stepFor, modeFor, entryFor, hk]

/-! ### The whole run -/

def fieldCommand (sentinel : String) (f : Field) : Command :=
  (statementFor (stepFor f)).command sentinel

/-- The commands of the fields bind the values that reading from the cursor gives. A cursor has to
be open only where a field takes a slot. -/
theorem run_fieldCommands (w : World α κ β) (sentinel : String) (row slots : List (Option α))
    (fields : List Field) (last : Command) (env : Environment α κ β) (c : Cursor α)
    (hc : ∀ f ∈ fields, f.isComposite = false → c = some slots)
    (hl : ∀ env c, run w row [last] env c = run w row [last] env none) :
    run w row (fields.map (fieldCommand sentinel) ++ [last]) env c =
      (valuesFrom w sentinel slots fields).bind fun values =>
        run w row [last] (values.reverse ++ env) none := by
  induction fields generalizing slots env c with
  | nil => exact hl env c
  | cons f fields ih =>
    rw [List.map_cons, List.cons_append, valuesFrom, nextValue]
    have hc' : ∀ g ∈ fields, g.isComposite = false → c = some slots :=
      fun g hg => hc g (List.mem_cons_of_mem f hg)
    by_cases h : f.isComposite = true
    · rw [fieldCommand, statementFor_composite f h, Statement.command, run]
      simp only [if_pos h]
      cases w.manual f.name with
      | error stop => rfl
      | ok v =>
        have rest := ih slots ((f.name, v) :: env) c hc'
        simp only [bind, Except.bind] at rest ⊢
        rw [rest]
        cases valuesFrom w sentinel slots fields <;> simp
    · have hf : f.isComposite = false := by simpa using h
      obtain ⟨declared, links, hs, he⟩ := eval_statementFor w sentinel f env slots hf
      rw [fieldCommand, hs, Statement.command, run, hc f (List.mem_cons_self ..) hf, he]
      simp only [if_neg h]
      cases settled w sentinel f slots.head? with
      | error stop => rfl
      | ok v =>
        have rest := ih slots.tail ((f.name, v) :: env) (some slots.tail) fun _ _ _ => rfl
        simp only [bind, Except.bind, Except.map] at rest ⊢
        rw [rest]
        cases valuesFrom w sentinel slots.tail fields <;> simp

theorem map_fst_valuesFrom (w : World α κ β) (sentinel : String) (slots : List (Option α))
    (fields : List Field) (values : Record α κ β)
    (h : valuesFrom w sentinel slots fields = .ok values) :
    values.map Prod.fst = fields.map (·.name) := by
  induction fields generalizing slots values with
  | nil =>
    cases h
    rfl
  | cons f fields ih =>
    rw [valuesFrom] at h
    obtain ⟨v, -, h⟩ := Fallible.bind_eq_ok.mp h
    obtain ⟨rest, hr, h⟩ := Fallible.bind_eq_ok.mp h
    cases h
    rw [List.map_cons, List.map_cons, ih _ rest hr]

omit [DecidableEq κ] in
theorem find?_isSome_of_mem (env : Environment α κ β) (name : String)
    (h : name ∈ env.map Prod.fst) : (Table.find? name env).isSome = true := by
  induction env with
  | nil => simp at h
  | cons p env ih =>
    rw [Table.find?]
    by_cases hp : p.1 = name
    · simp [hp]
    · have behind : name ∈ env.map Prod.fst := by
        rw [List.map_cons, List.mem_cons] at h
        exact h.resolve_left fun e => hp e.symm
      simp [hp, ih behind]

def lastCommand (fields : List Field) : Command :=
  if fields.isEmpty then .buildEmpty else .build (fields.map (·.name))

theorem run_lastCommand (w : World α κ β) (row : List (Option α)) (fields : List Field)
    (values : Record α κ β) (c : Cursor α) (names : values.map Prod.fst = fields.map (·.name)) :
    run w row [lastCommand fields] values.reverse c = .ok (recordOf values) := by
  have empty : values.isEmpty = fields.isEmpty := by
    rw [← List.isEmpty_map (f := Prod.fst), names, List.isEmpty_map]
  cases hv : fields.isEmpty
  · have bound (p : String × Value α κ β) (hp : p ∈ values) :
        shorthand values.reverse p.1 =
          .ok (p.1, (Table.find? p.1 values.reverse).getD p.2) := by
      have found : (Table.find? p.1 values.reverse).isSome = true := by
        apply find?_isSome_of_mem
        rw [List.map_reverse, List.mem_reverse]
        exact List.mem_map_of_mem hp
      obtain ⟨v, hf⟩ := Option.isSome_iff_exists.mp found
      simp [shorthand, hf]
    simp only [run, lastCommand, recordOf, empty, hv, Bool.false_eq_true, if_false]
    rw [← names, Fallible.mapM_eq_ok, List.forall₂_map_left_iff, List.forall₂_map_right_iff,
      List.forall₂_same]
    exact bound
  · simp [run, lastCommand, recordOf, empty, hv]

theorem structFor_slots (name : String) (group : AccountGroup) :
    (structFor name group).slots = slotCount group.fields := by
  have same (f : Field) : (stepFor f).consumesSlot = !f.isComposite := by
    unfold Step.consumesSlot stepFor modeFor entryFor Field.isComposite
    cases f.kind <;> rfl
  rw [Struct.slots, structFor, slotCount, List.filter_map, List.length_map]
  exact congrArg List.length (List.filter_congr fun f _ => same f)

/-- The text that fills the struct of a group is code which, over any row of slots, builds the
struct for the group. -/
theorem run_fillingCode (config : Config) (name : String) (group : AccountGroup) (w : World α κ β)
    (slots : List (Option α)) :
    fillingLines config (structFor name group) =
        functionLines name (fillingCode config (structFor name group)) ∧
      run w slots (fillingCode config (structFor name group)) [] none =
        snapshotOf w config.programIdConst slots group := by
  refine ⟨fillingLines_eq config (structFor name group), ?_⟩
  have behind_opening : run w slots (fillingCode config (structFor name group)) [] none =
      run w slots (group.fields.map (fieldCommand config.programIdConst) ++
        [lastCommand group.fields]) []
        (if slotCount group.fields = 0 then none else some slots) := by
    rw [fillingCode, structFor_slots]
    by_cases h : slotCount group.fields = 0 <;>
      simp only [h, structFor, lastCommand, List.map_map, Function.comp_def, List.isEmpty_map,
        if_true, if_false, List.nil_append, List.singleton_append] <;>
      rfl
  have open_where_needed : ∀ f ∈ group.fields, f.isComposite = false →
      (if slotCount group.fields = 0 then none else some slots) = some slots := by
    intro f hf hc
    have counted : f ∈ group.fields.filter fun f => !f.isComposite := by simp [hf, hc]
    exact if_neg (Nat.ne_of_gt (List.length_pos_of_mem counted))
  have closed (env : Environment α κ β) (c : Cursor α) :
      run w slots [lastCommand group.fields] env c =
        run w slots [lastCommand group.fields] env none := by
    unfold lastCommand
    split <;> rfl
  rw [behind_opening, run_fieldCommands w _ slots slots _ _ [] _ open_where_needed
    closed, snapshotOf, fieldValues_eq]
  cases hv : valuesFrom w config.programIdConst slots group.fields with
  | error stop => rfl
  | ok values =>
    have names := map_fst_valuesFrom w _ slots group.fields values hv
    simpa [bind, Except.bind, Except.map] using run_lastCommand w slots group.fields values none names

/-- A required signer and an account that the instruction creates: the second one is left out by the
account that stands for "not provided". -/
example :
    let signer : Field := ⟨"author", "", "", .signer, none, false, false, false, false, false⟩
    let state : Field :=
      ⟨"state", "", "", .typedAccount, some "T", false, false, false, true, false⟩
    let w : World Nat Nat Nat :=
      ⟨id, fun _ => 0, fun _ a => some (10 * a), fun f => .error (.panicked f)⟩
    snapshotOf w "PROGRAM_ID" [some 7, some 0] ⟨"Initialize", "Initialize", [signer, state]⟩ =
      .ok [("author", .typed 70), ("state", .none)] := rfl

end AnchorHarness.Snapshot
