import AnchorHarness.Proofs.Account.Classified
import AnchorHarness.Snapshot.Step

/-!
# Wrapped accounts

An `Option` or a `Box` around the type of an account is recorded of the field, and takes no part in
what kind of account it is, nor in why it is none. A snapshot shows the `Option` and not the `Box`.
-/

namespace AnchorHarness.Account

open Rust (TypeRef)

/-- The outer type is `wrapper<inner>`, behind any path and with any lifetimes beside `inner`. -/
structure Wraps (wrapper : String) (inner outer : TypeRef) : Prop where
  kind : outer.kind = .genericType
  path : ∃ front, outer.path = front ++ [wrapper]
  args : ∃ before behind, outer.args = before ++ inner :: behind ∧
    ∀ a ∈ before ++ behind, a.isLifetime = true

/-- The forms in which the type of an account may be declared: optional or not, boxed or not. -/
inductive Wrapped (ty : TypeRef) : Bool → Bool → TypeRef → Prop where
  | bare : Wrapped ty false false ty
  | option {outer : TypeRef} : Wraps "Option" ty outer → Wrapped ty true false outer
  | box {outer : TypeRef} : Wraps "Box" ty outer → Wrapped ty false true outer
  | optionBox {middle outer : TypeRef} : Wraps "Box" ty middle → Wraps "Option" middle outer →
      Wrapped ty true true outer

/-! ### Taking a wrapper off -/

theorem unwrap?_of_ident_ne {wrapper : String} {ty : TypeRef} (h : ty.ident ≠ some wrapper) :
    unwrap? wrapper ty = none := by
  unfold unwrap?
  rw [if_neg h]

section

variable {wrapper : String} {ty outer : TypeRef}

theorem Wraps.ident_eq (h : Wraps wrapper ty outer) : outer.ident = some wrapper := by
  obtain ⟨front, path⟩ := h.path
  rw [TypeRef.ident, path, List.getLast?_concat]

theorem Wraps.typeArgs_eq (h : Wraps wrapper ty outer) (type : ty.isLifetime = false) :
    outer.typeArgs = [ty] := by
  obtain ⟨before, behind, args, lifetimes⟩ := h.args
  have none (as : List TypeRef) (all : ∀ a ∈ as, a ∈ before ++ behind) :
      as.filter (fun a => !a.isLifetime) = [] := by
    apply List.filter_eq_nil_iff.mpr
    intro a ha
    simp [lifetimes a (all a ha)]
  have front := none before fun a ha => List.mem_append_left behind ha
  have rest := none behind fun a ha => List.mem_append_right before ha
  rw [TypeRef.typeArgs, args, List.filter_append, List.filter_cons_of_pos (by simp [type]), front,
    rest]
  rfl

theorem Wraps.unwrap?_eq (h : Wraps wrapper ty outer) (type : ty.isLifetime = false) :
    unwrap? wrapper outer = some ty := by
  unfold unwrap?
  rw [if_pos h.ident_eq, h.typeArgs_eq type]

theorem Wraps.isLifetime_eq (h : Wraps wrapper ty outer) : outer.isLifetime = false := by
  rw [TypeRef.isLifetime, h.kind]
  rfl

end

/-! ### Taking both wrappers off -/

section

variable {ty declared : TypeRef} {optional boxed : Bool}

/-- What the two wrappers leave of a declared type, and which of them there were. -/
structure Unwrapped (ty : TypeRef) (optional boxed : Bool) (declared : TypeRef) : Prop where
  bare : bareType declared = ty
  optional : (unwrap? "Option" declared).isSome = optional
  boxed : (unwrap? "Box" ((unwrap? "Option" declared).getD declared)).isSome = boxed

theorem Unwrapped.of_present (present : TypeRef)
    (option : (unwrap? "Option" declared).getD declared = present)
    (some : (unwrap? "Option" declared).isSome = optional)
    (box : (unwrap? "Box" present).getD present = ty)
    (held : (unwrap? "Box" present).isSome = boxed) : Unwrapped ty optional boxed declared := by
  subst option
  exact ⟨box, some, held⟩

theorem Wrapped.unwrapped (h : Wrapped ty optional boxed declared) (type : ty.isLifetime = false)
    (option : ty.ident ≠ some "Option") (box : ty.ident ≠ some "Box") :
    Unwrapped ty optional boxed declared := by
  have unboxed : unwrap? "Box" ty = none := unwrap?_of_ident_ne box
  have present : unwrap? "Option" ty = none := unwrap?_of_ident_ne option
  cases h with
  | bare =>
    apply Unwrapped.of_present ty
    all_goals simp [present, unboxed]
  | option outer =>
    have taken := outer.unwrap?_eq type
    apply Unwrapped.of_present ty
    all_goals simp [taken, unboxed]
  | box outer =>
    have taken := outer.unwrap?_eq type
    have kept : unwrap? "Option" declared = none := by
      apply unwrap?_of_ident_ne
      rw [outer.ident_eq]
      decide
    apply Unwrapped.of_present declared
    all_goals simp [taken, kept]
  | @optionBox middle _ inner outer =>
    have taken := outer.unwrap?_eq inner.isLifetime_eq
    have unboxed := inner.unwrap?_eq type
    apply Unwrapped.of_present middle
    all_goals simp [taken, unboxed]

end

/-! ### Classification -/

/-- The type that a snapshot shows for an account, from the account's own type. -/
def shownType (optional raw : Bool) (text : String) : String :=
  let handle := if raw then "&'info " ++ text else text
  if optional then "Option<" ++ handle ++ ">" else handle

theorem classify_eq_map (name : String) (declared : TypeRef) (attributes : List String) :
    classify name declared attributes =
      (shapeOfType (bareType declared)).map fun shape =>
        { name
          declaredType := declared.text
          accountType := (bareType declared).text
          kind := shape.kind
          innerType := shape.innerType
          isInterface := shape.isInterface
          declaredOptional := (unwrap? "Option" declared).isSome
          isBoxed := (unwrap? "Box" ((unwrap? "Option" declared).getD declared)).isSome
          hasInit := (lifecycle attributes).hasInit
          hasClose := (lifecycle attributes).hasClose } := rfl

/-- A wrapped type is classified as the type itself, but for the flags of its wrappers. -/
theorem classify_wrapped {ty declared : TypeRef} {optional boxed : Bool}
    (h : Wrapped ty optional boxed declared) (type : ty.isLifetime = false)
    (option : ty.ident ≠ some "Option") (box : ty.ident ≠ some "Box") (name : String)
    (attributes : List String) :
    (∀ reason, classify name declared attributes = .error reason ↔
        classify name ty attributes = .error reason) ∧
      (∀ f, classify name declared attributes = .ok f ↔
        ∃ g, classify name ty attributes = .ok g ∧
          f = { g with
            declaredType := declared.text, declaredOptional := optional, isBoxed := boxed }) ∧
      ∀ f, classify name declared attributes = .ok f →
        f.accountType = ty.text ∧
          f.hasInit = (lifecycle attributes).hasInit ∧
          f.hasClose = (lifecycle attributes).hasClose ∧
          Snapshot.fieldType f =
            shownType (optional || f.hasInit || f.hasClose) (f.kind == .rawHandle)
              ty.text := by
  have wrapped := h.unwrapped type option box
  have own := Wrapped.bare.unwrapped type option box
  rw [classify_eq_map, classify_eq_map, wrapped.bare, wrapped.optional, wrapped.boxed, own.bare]
  cases shapeOfType ty with
  | error reason => simp [Except.map]
  | ok shape =>
    refine ⟨by simp [Except.map], ?_, ?_⟩
    · intro f
      simp only [Except.map, Except.ok.injEq, exists_eq_left']
      constructor
      · intro hf
        exact hf.symm
      · intro hf
        exact hf.symm
    · intro f hf
      cases hf
      exact ⟨rfl, rfl, rfl, rfl⟩

def vaultType : TypeRef :=
  ⟨"Account<'info, Vault>", .genericType, ["Account"],
    [⟨"'info", .lifetime, [], []⟩, ⟨"Vault", .typeIdentifier, ["Vault"], []⟩]⟩

def boxedVaultType : TypeRef :=
  ⟨"Box<Account<'info, Vault>>", .genericType, ["Box"], [vaultType]⟩

def optionalVaultType : TypeRef :=
  ⟨"std::option::Option<Box<Account<'info, Vault>>>", .genericType, ["std", "option", "Option"],
    [boxedVaultType]⟩

theorem classify_wrapped_optionalVault :
    Wrapped vaultType true true optionalVaultType ∧
      (classify "vault" optionalVaultType ["account(mut)"]).map Snapshot.fieldType =
        .ok "Option<Account<'info, Vault>>" := by
  have inner : Wraps "Box" vaultType boxedVaultType :=
    ⟨rfl, ⟨[], rfl⟩, [], [], rfl, by simp⟩
  have outer : Wraps "Option" boxedVaultType optionalVaultType :=
    ⟨rfl, ⟨["std", "option"], rfl⟩, [], [], rfl, by simp⟩
  have wrapped := Wrapped.optionBox inner outer
  have own : classify "vault" vaultType ["account(mut)"] =
      .ok ⟨"vault", vaultType.text, vaultType.text, .typedAccount, some "Vault", false, false,
        false, false, false⟩ := rfl
  obtain ⟨-, classified, shown⟩ :=
    classify_wrapped wrapped rfl (by decide) (by decide) "vault" ["account(mut)"]
  have found := (classified _).mpr ⟨_, own, rfl⟩
  obtain ⟨-, -, -, type⟩ := shown _ found
  refine ⟨wrapped, ?_⟩
  rw [found, Except.map, type]
  rfl

end AnchorHarness.Account
