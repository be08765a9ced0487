import AnchorHarness.Proofs.Account.Classified
import AnchorHarness.Proofs.Snapshot.Slots

/-!
# Types of snapshot fields and of their values

The type of a snapshot field is put together from the type of the account, while the code that fills
the field names types and functions of its own, which it finds by the kind of the field. Both agree:
the value is missing or borrowed where the field's type says so, and otherwise it is of the wrapper
and the type argument that the account was declared with.
-/

namespace AnchorHarness.Snapshot

open Account (Field Shaped wrapper?)
open Rust (TypeRef pathSegments)

/-! ### Fields -/

/-- The type of a field, as it is put together from the type of the account. -/
inductive FieldType where
  | option (t : FieldType)
  | borrowed (ty : TypeRef)
  | owned (ty : TypeRef)

def FieldType.text : FieldType → String
  | .option t => "Option<" ++ t.text ++ ">"
  | .borrowed ty => "&'info " ++ ty.text
  | .owned ty => ty.text

def presentType (f : Field) (ty : TypeRef) : FieldType :=
  if f.isRawHandle then .borrowed ty else .owned ty

def typeOf (f : Field) (ty : TypeRef) : FieldType :=
  if f.isOptional then .option (presentType f ty) else presentType f ty

theorem text_typeOf {f : Field} {ty : TypeRef} (h : f.accountType = ty.text) :
    (typeOf f ty).text = fieldType f := by
  unfold typeOf presentType fieldType
  rw [h]
  split <;> split <;> rfl

/-! ### Values -/

/-- A text is a path that ends in an identifier, with type arguments behind elided lifetimes. -/
def Names (text ident : String) (arguments : List String) : Prop :=
  ∃ path lifetimes, text = path ++ "<" ++ ", ".intercalate (lifetimes ++ arguments) ++ ">" ∧
    (pathSegments path.toList).getLast? = some ident ∧ ∀ l ∈ lifetimes, l = "'_"

/-- A path is that of a function of the type that ends in an identifier. -/
def BelongsTo (method ident : String) : Prop :=
  (pathSegments method.toList).dropLast.getLast? = some ident

instance (method ident : String) : Decidable (BelongsTo method ident) :=
  inferInstanceAs (Decidable (_ = _))

/-- The type arguments of an account's type. Of the argument of a sysvar only the identifier counts,
as all sysvars are found under their names. -/
def argumentsOf (ty : TypeRef) : List String :=
  if ty.ident = some "Sysvar" then ty.typeArgs.filterMap TypeRef.ident else ty.typeArgs.map TypeRef.text

inductive Makes : Mode → FieldType → Prop where
  | raw (ty : TypeRef) : ty.ident = some "AccountInfo" → Makes .raw (.borrowed ty)
  | unchecked (ty : TypeRef) : ty.ident = some "UncheckedAccount" → argumentsOf ty = [] →
      BelongsTo uncheckedMethod "UncheckedAccount" → Makes .unchecked (.owned ty)
  | typed (ty : TypeRef) (entry : Entry) (ident : String) : ty.ident = some ident →
      Names entry.returnType ident (argumentsOf ty) → BelongsTo entry.method ident →
      Makes (.typed entry) (.owned ty)

/-- The type has no type argument that its wrapper does not need. -/
def Exact (ty : TypeRef) : Prop :=
  ∀ ident kind takes, ty.ident = some ident → wrapper? ident = some (kind, takes) →
    ty.typeArgs.length ≤ takes.toNat

theorem names_wrapperEntry {wrapper ident : String}
    (h : (pathSegments (accountsModule ++ "::" ++ wrapper).toList).getLast? = some ident)
    (inner : String) : Names (wrapperEntry wrapper (some inner)).returnType ident [inner] := by
  refine ⟨accountsModule ++ "::" ++ wrapper, [], rfl, h, by simp⟩

theorem argumentsOf_of_nil {ty : TypeRef} (h : ty.typeArgs = []) : argumentsOf ty = [] := by
  simp [argumentsOf, h]

theorem argumentsOf_of_ne {ty inner : TypeRef} {ident : String} (hi : ty.ident = some ident)
    (other : ident ≠ "Sysvar") (ha : ty.typeArgs = [inner]) : argumentsOf ty = [inner.text] := by
  simp [argumentsOf, hi, other, ha]

theorem names_elided (ident : String) (h : (pathSegments ident.toList).getLast? = some ident) :
    Names (ident ++ "<" ++ "'_" ++ ">") ident [] :=
  ⟨ident, ["'_"], rfl, h, by simp⟩

theorem makes_of_entry {f : Field} {ty : TypeRef} {entry : Entry} {ident : String}
    (he : entryFor f = .ok entry) (hi : ty.ident = some ident)
    (names : Names entry.returnType ident (argumentsOf ty)) (belongs : BelongsTo entry.method ident) :
    Makes (modeFor f) (presentType f ty) := by
  have mode : modeFor f = .typed entry := by rw [modeFor, he]
  have owned : f.isRawHandle = false := by
    unfold Field.isRawHandle
    cases hk : f.kind
    case rawHandle => simp [entryFor, hk] at he
    all_goals rfl
  rw [mode, presentType, owned]
  exact .typed ty entry ident hi names belongs

theorem makes_plain {f : Field} {ty : TypeRef} {ident : String} (hi : ty.ident = some ident)
    (hw : wrapper? ident = some (f.kind, false)) (exact : Exact ty) :
    Makes (modeFor f) (presentType f ty) := by
  have bare : ty.typeArgs = [] := by
    have few := exact ident f.kind false hi hw
    exact List.length_eq_zero_iff.mp (Nat.le_zero.mp few)
  have nothing := argumentsOf_of_nil bare
  obtain ⟨rfl, hk⟩ | ⟨rfl, hk⟩ | ⟨rfl, hk⟩ | ⟨rfl, hk⟩ := Account.wrapper?_plain_cases hw
  · have he : entryFor f = .ok ⟨"SystemAccount<'_>",
        accountsModule ++ "::system_account::SystemAccount::try_from"⟩ := by simp [entryFor, hk]
    refine makes_of_entry he hi ?_ (by decide)
    rw [nothing]
    exact names_elided "SystemAccount" (by decide)
  · have he : entryFor f = .ok ⟨"Signer<'_>", accountsModule ++ "::signer::Signer::try_from"⟩ := by
      simp [entryFor, hk]
    refine makes_of_entry he hi ?_ (by decide)
    rw [nothing]
    exact names_elided "Signer" (by decide)
  · have mode : modeFor f = .unchecked := by simp [modeFor, entryFor, hk]
    have owned : presentType f ty = .owned ty := by simp [presentType, Field.isRawHandle, hk]
    rw [mode, owned]
    exact .unchecked ty hi nothing (by decide)
  · have mode : modeFor f = .raw := by simp [modeFor, entryFor, hk]
    have borrowed : presentType f ty = .borrowed ty := by
      simp [presentType, Field.isRawHandle, hk]
    rw [mode, borrowed]
    exact .raw ty hi

theorem makes_holding {f : Field} {ty inner : TypeRef} {ident : String}
    (hi : ty.ident = some ident) (hw : wrapper? ident = some (f.kind, true))
    (other : f.kind ≠ .sysvar) (ha : ty.typeArgs = [inner]) (hn : f.innerType = some inner.text)
    (hf : f.isInterface = decide (ident = "InterfaceAccount")) :
    Makes (modeFor f) (presentType f ty) := by
  have apart : ident ≠ "Sysvar" := by
    rintro rfl
    exact other (Prod.mk.inj (Option.some.inj hw)).1.symm
  -- The entry of each wrapper is made from its path in the same way.
  have made (wrapper : String) (he : entryFor f = .ok (wrapperEntry wrapper (some inner.text)))
      (path : (pathSegments (accountsModule ++ "::" ++ wrapper).toList).getLast? = some ident)
      (belongs : BelongsTo (accountsModule ++ "::" ++ wrapper ++ "::try_from") ident) :
      Makes (modeFor f) (presentType f ty) := by
    refine makes_of_entry he hi ?_ belongs
    rw [argumentsOf_of_ne hi apart ha]
    exact names_wrapperEntry path inner.text
  obtain ⟨rfl, hk⟩ | ⟨rfl, hk⟩ | ⟨rfl, hk⟩ | ⟨rfl, hk⟩ | ⟨rfl, hk⟩ | ⟨rfl, hk⟩ :=
    Account.wrapper?_holding_cases hw
  · exact absurd hk other
  · exact made "program::Program" (by simp [entryFor, hk, hn]) (by decide)
      (by decide)
  · exact made "interface::Interface" (by simp [entryFor, hk, hn]) (by decide)
      (by decide)
  · exact made "account::Account" (by simp [entryFor, hk, hn, hf]) (by decide)
      (by decide)
  · exact made "interface_account::InterfaceAccount" (by simp [entryFor, hk, hn, hf]) (by decide)
      (by decide)
  · exact made "account_loader::AccountLoader" (by simp [entryFor, hk, hn]) (by decide)
      (by decide)

theorem makes_sysvar {f : Field} {ty inner : TypeRef} {name : String} (hk : f.kind = .sysvar)
    (hn : f.innerType = some name) (hi : ty.ident = some "Sysvar") (ha : ty.typeArgs = [inner])
    (hv : inner.ident = some name) : Makes (modeFor f) (presentType f ty) := by
  have he : entryFor f = .ok ⟨"Sysvar" ++ "<" ++ name ++ ">",
      accountsModule ++ "::sysvar::Sysvar::from_account_info"⟩ := by
    simp [entryFor, hk, hn, innerText]
  have belongs :
      BelongsTo (accountsModule ++ "::sysvar::Sysvar::from_account_info") "Sysvar" := by decide
  refine makes_of_entry he hi ?_ belongs
  have found : argumentsOf ty = [name] := by simp [argumentsOf, hi, ha, hv]
  rw [found]
  exact ⟨"Sysvar", [], rfl, by decide, by simp⟩

theorem makes_modeFor {f : Field} {ty : TypeRef}
    (shaped : Shaped ty ⟨f.kind, f.innerType, f.isInterface⟩) (leaf : f.isComposite = false)
    (exact : Exact ty) : Makes (modeFor f) (presentType f ty) := by
  generalize hs : Account.Shape.mk f.kind f.innerType f.isInterface = shape at shaped
  cases shaped with
  | composite ident hi hw =>
    have hk := (Account.Shape.mk.inj hs).1
    simp [Field.isComposite, hk] at leaf
  | plain ident kind hi hw =>
    obtain ⟨rfl, -, -⟩ := Account.Shape.mk.inj hs
    exact makes_plain hi hw exact
  | holding ident kind inner hi hw other ha =>
    obtain ⟨rfl, hn, hf⟩ := Account.Shape.mk.inj hs
    exact makes_holding hi hw other ha hn hf
  | sysvar inner name hi ha hv there =>
    obtain ⟨hk, hn, -⟩ := Account.Shape.mk.inj hs
    exact makes_sysvar hk hn hi ha hv

/-- What a mode makes values of shows in the last identifier and the type arguments only. -/
theorem Makes.congr {mode : Mode} {f : Field} {ty other : TypeRef}
    (makes : Makes mode (presentType f ty)) (ident : other.ident = ty.ident)
    (arguments : argumentsOf other = argumentsOf ty) : Makes mode (presentType f other) := by
  unfold presentType at makes ⊢
  split at makes
  · next raw =>
    rw [if_pos raw]
    cases makes with
    | raw _ hi => exact .raw other (ident.trans hi)
  · next owned =>
    rw [if_neg owned]
    cases makes with
    | unchecked _ hi ha belongs => exact .unchecked other (ident.trans hi) (arguments.trans ha) belongs
    | typed _ entry name hi names belongs =>
      exact .typed other entry name (ident.trans hi) (arguments ▸ names) belongs

/-! ### Statements -/

/-- The type that the statement of a field declares, which only typed accounts need. -/
def declaredType? (f : Field) : Option String :=
  (modeFor f).returnType?.map fun type => if f.isOptional then "Option<" ++ type ++ ">" else type

theorem exists_links {f : Field} (leaf : f.isComposite = false) :
    ∃ links, statementFor (stepFor f) = .bind f.name (declaredType? f) links := by
  unfold statementFor stepFor declaredType?
  have slot : modeFor f ≠ .placeholder := by
    unfold modeFor
    obtain ⟨entry, he⟩ | ⟨he, -⟩ | ⟨he, -⟩ := entryFor_cases f leaf <;> simp [he]
  cases hm : modeFor f
  case placeholder => exact absurd hm slot
  all_goals cases f.isOptional <;> exact ⟨_, rfl⟩

section
variable {α κ β : Type}

inductive FromMode (w : World α κ β) : Mode → Value α κ β → Prop where
  | raw (a : α) : FromMode w .raw (.account a)
  | unchecked (a : α) : FromMode w .unchecked (.unchecked a)
  | typed (entry : Entry) (a : α) (b : β) : w.entry entry.method a = some b →
      FromMode w (.typed entry) (.typed b)

/-- What a step makes of its slot: it is wrapped just if the account may be missing. -/
def FromStep (w : World α κ β) (s : Step) (v : Value α κ β) : Prop :=
  if s.optional then v = .none ∨ ∃ u, v = .some u ∧ FromMode w s.mode u else FromMode w s.mode v

theorem fromMode_of_taken {w : World α κ β} {f : Field} {a : α} {v : Value α κ β}
    (leaf : f.isComposite = false) (h : taken w f a = .ok v) : FromMode w (modeFor f) v := by
  unfold taken at h
  obtain ⟨entry, he⟩ | ⟨he, hr⟩ | ⟨he, hr⟩ := entryFor_cases f leaf
  · have mode : modeFor f = .typed entry := by rw [modeFor, he]
    rw [he] at h
    rw [mode]
    cases hb : w.entry entry.method a with
    | none => simp [hb] at h
    | some b =>
      simp only [hb, Except.ok.injEq] at h
      exact h ▸ .typed entry a b hb
  · have mode : modeFor f = .raw := by rw [modeFor, he]
    simp only [he, hr, if_true, Except.ok.injEq] at h
    exact mode ▸ h ▸ .raw a
  · have mode : modeFor f = .unchecked := by rw [modeFor, he]
    simp only [he, hr, Bool.false_eq_true, if_false, Except.ok.injEq] at h
    exact mode ▸ h ▸ .unchecked a

variable [DecidableEq κ]

theorem fromStep_of_settled {w : World α κ β} {sentinel : String} {f : Field}
    {slot : Option (Option α)} {v : Value α κ β} (leaf : f.isComposite = false)
    (h : settled w sentinel f slot = .ok v) : FromStep w (stepFor f) v := by
  unfold FromStep stepFor
  cases slot with
  | none => cases h
  | some slot =>
    cases slot with
    | none =>
      cases ho : f.isOptional <;> simp only [settled, ho] at h
      · cases h
      · cases h
        exact .inl rfl
    | some a =>
      cases ho : f.isOptional <;> simp only [settled, ho, if_true] at h
      · exact fromMode_of_taken leaf h
      · split at h
        · cases h
          exact .inl rfl
        · obtain ⟨u, hu, rfl⟩ := Fallible.map_eq_ok.mp h
          exact .inr ⟨u, rfl, fromMode_of_taken leaf hu⟩

theorem fromStep_of_eval {w : World α κ β} {sentinel : String} {f : Field}
    {env : Environment α κ β} {slots : List (Option α)} {declared : Option String}
    {links : List Link} {v : Value α κ β} {c : Cursor α} (leaf : f.isComposite = false)
    (hs : statementFor (stepFor f) = .bind f.name declared links)
    (h : (chain sentinel links).eval w env (some slots) = .ok (v, c)) :
    FromStep w (stepFor f) v := by
  obtain ⟨declared', links', hs', he⟩ := eval_statementFor w sentinel f env slots leaf
  rw [hs] at hs'
  cases hs'
  rw [he] at h
  obtain ⟨u, hu, same⟩ := Fallible.map_eq_ok.mp h
  cases same
  exact fromStep_of_settled leaf hu

end

end AnchorHarness.Snapshot
