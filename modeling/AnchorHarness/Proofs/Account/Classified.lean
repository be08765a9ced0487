import AnchorHarness.Account.Classify
import AnchorHarness.Proofs.Fallible

/-!
# Classified fields

What a field is classified as, by the type that is left once `Option` and `Box` are taken off: a
nested group unless the path ends in a wrapper, and else what the wrapper holds, together with the
type argument that it needs.
-/

namespace AnchorHarness.Account

open Rust (TypeRef)

def bareType (declared : TypeRef) : TypeRef :=
  let present := (unwrap? "Option" declared).getD declared
  (unwrap? "Box" present).getD present

/-- The shape of a type whose path ends in an identifier. -/
inductive Shaped (ty : TypeRef) : Shape → Prop where
  | composite (ident : String) : ty.ident = some ident → wrapper? ident = none →
      Shaped ty ⟨.composite, none, false⟩
  | plain (ident : String) (kind : Kind) : ty.ident = some ident →
      wrapper? ident = some (kind, false) → Shaped ty ⟨kind, none, false⟩
  | holding (ident : String) (kind : Kind) (inner : TypeRef) : ty.ident = some ident →
      wrapper? ident = some (kind, true) → kind ≠ .sysvar → ty.typeArgs = [inner] →
      Shaped ty ⟨kind, some inner.text, ident = "InterfaceAccount"⟩
  | sysvar (inner : TypeRef) (name : String) : ty.ident = some "Sysvar" → ty.typeArgs = [inner] →
      inner.ident = some name → name ∈ sysvars → Shaped ty ⟨.sysvar, some name, false⟩

/-! ### Wrappers -/

theorem wrapper?_plain_cases {ident : String} {kind : Kind}
    (h : wrapper? ident = some (kind, false)) :
    (ident = "SystemAccount" ∧ kind = .systemAccount) ∨ (ident = "Signer" ∧ kind = .signer) ∨
      (ident = "UncheckedAccount" ∧ kind = .uncheckedAccount) ∨
        ident = "AccountInfo" ∧ kind = .rawHandle := by
  unfold wrapper? at h
  split at h <;> simp_all

theorem wrapper?_holding_cases {ident : String} {kind : Kind}
    (h : wrapper? ident = some (kind, true)) :
    (ident = "Sysvar" ∧ kind = .sysvar) ∨ (ident = "Program" ∧ kind = .program) ∨
      (ident = "Interface" ∧ kind = .interface) ∨ (ident = "Account" ∧ kind = .typedAccount) ∨
        (ident = "InterfaceAccount" ∧ kind = .typedAccount) ∨
          ident = "AccountLoader" ∧ kind = .accountLoader := by
  unfold wrapper? at h
  split at h <;> simp_all

theorem ne_of_wrapper?_false {ident : String} {kind : Kind}
    (h : wrapper? ident = some (kind, false)) : ident ≠ "InterfaceAccount" := by
  rintro rfl
  cases h

/-! ### Shapes -/

theorem innerType_eq_ok (ty : TypeRef) (ident : String) (kind : Kind) (text : String) :
    innerType ty ident kind = .ok text ↔ ∃ inner, ty.typeArgs = [inner] ∧
      if kind = .sysvar then inner.ident = some text ∧ text ∈ sysvars else inner.text = text := by
  unfold innerType
  split
  · next inner h =>
    simp only [h, List.cons.injEq, and_true, exists_eq_left']
    split
    · split
      · next name hn =>
        rw [hn, Option.some.injEq]
        by_cases hm : name ∈ sysvars
        · simp only [List.contains_eq_mem, hm, decide_true, if_true, Except.ok.injEq]
          exact ⟨fun h => ⟨h, h ▸ hm⟩, And.left⟩
        · simp only [List.contains_eq_mem, hm, decide_false, Bool.false_eq_true, if_false,
            reduceCtorEq, false_iff]
          rintro ⟨rfl, there⟩
          exact hm there
      · next hn => simp [hn]
    · rw [Except.ok.injEq]
  · next h =>
    simp only [reduceCtorEq, false_iff]
    rintro ⟨inner, hi, -⟩
    exact h inner hi

theorem shapeOfType_eq_ok (ty : TypeRef) (shape : Shape) :
    shapeOfType ty = .ok shape ↔ Shaped ty shape := by
  unfold shapeOfType
  constructor
  · intro h
    cases hi : ty.ident with
    | none =>
      rw [hi] at h
      cases h
    | some ident =>
      simp only [hi] at h
      cases hw : wrapper? ident with
      | none =>
        simp only [hw] at h
        cases h
        exact .composite ident hi hw
      | some found =>
        obtain ⟨kind, takes⟩ := found
        simp only [hw] at h
        cases takes with
        | false =>
          cases h
          rw [decide_eq_false (ne_of_wrapper?_false hw)]
          exact .plain ident kind hi hw
        | true =>
          obtain ⟨text, ht, rfl⟩ := Fallible.map_eq_ok.mp h
          obtain ⟨inner, ha, hk⟩ := (innerType_eq_ok ty ident kind text).mp ht
          split at hk
          · next sysvar =>
            subst sysvar
            obtain rfl : ident = "Sysvar" := by simpa using wrapper?_holding_cases hw
            exact .sysvar inner text hi ha hk.1 hk.2
          · next other =>
            subst hk
            exact .holding ident kind inner hi hw other ha
  · intro h
    cases h with
    | composite ident hi hw => simp only [hi, hw]
    | plain ident kind hi hw =>
      simp only [hi, hw, Bool.false_eq_true, if_false, decide_eq_false (ne_of_wrapper?_false hw)]
    | holding ident kind inner hi hw other ha =>
      have text := (innerType_eq_ok ty ident kind inner.text).mpr ⟨inner, ha, by rw [if_neg other]⟩
      simp only [hi, hw, if_true, text]
      rfl
    | sysvar inner name hi ha hn there =>
      have text := (innerType_eq_ok ty "Sysvar" .sysvar name).mpr ⟨inner, ha, hn, there⟩
      have hw : wrapper? "Sysvar" = some (.sysvar, true) := rfl
      simp only [hi, hw, if_true, text]
      rfl

/-- A field is what its type is without `Option` and `Box`. -/
theorem classify_eq_ok {name : String} {declared : TypeRef} {attributes : List String} {f : Field}
    (h : classify name declared attributes = .ok f) :
    f.name = name ∧ f.declaredType = declared.text ∧ f.accountType = (bareType declared).text ∧
      Shaped (bareType declared) ⟨f.kind, f.innerType, f.isInterface⟩ := by
  obtain ⟨shape, hs, rfl⟩ := Fallible.map_eq_ok.mp h
  exact ⟨rfl, rfl, rfl, (shapeOfType_eq_ok _ _).mp hs⟩

end AnchorHarness.Account
