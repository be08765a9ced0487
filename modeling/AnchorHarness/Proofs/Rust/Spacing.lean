import AnchorHarness.Rust.TypeText
import Mathlib.Data.Bool.AllAny

/-!
# Spacing

What the canonical spelling does to a text, character by character. Inert characters stay as they
are, and between two of them there are blanks or signs in the canonical spelling just if there were
some before. The rest of a text is spelled as the text in front of it says by a state; a text can be
cut anywhere but between two colons that belong together.
-/

namespace AnchorHarness.Rust

open Text (isBlank)

/-! ### Characters -/

/-- Neither a blank nor a sign that the spelling of a type is concerned with. -/
def IsInert (c : Char) : Prop := isBlank c = false ∧ isTightSign c = false ∧ c ≠ ':'

instance (c : Char) : Decidable (IsInert c) := inferInstanceAs (Decidable (_ ∧ _ ∧ _))

/-- No inert character stands in front. -/
def Loose (cs : List Char) : Prop := ∀ c ∈ cs.head?, ¬IsInert c

theorem loose_nil : Loose [] := by simp [Loose]

theorem loose_cons {c : Char} {cs : List Char} : Loose (c :: cs) ↔ ¬IsInert c := by
  simp [Loose]

theorem exists_cons_of_not_loose {cs : List Char} (h : ¬Loose cs) :
    ∃ c rest, cs = c :: rest ∧ IsInert c := by
  cases cs with
  | nil => exact absurd loose_nil h
  | cons c rest => exact ⟨c, rest, rfl, Classical.not_not.mp fun hc => h (loose_cons.mpr hc)⟩

/-- The text ends in a colon that is not the second one of a pair. -/
def endsInColon : List Char → Bool
  | [] => false
  | ':' :: ':' :: cs => endsInColon cs
  | c :: cs => (c == ':' && cs.isEmpty) || endsInColon cs

/-- The state behind a text. -/
def Spacing.after : Spacing → List Char → Spacing
  | s, [] => s
  | _, ':' :: ':' :: cs => Spacing.tight.after cs
  | s, c :: cs =>
    if isBlank c then s.widen.after cs
    else if isTightSign c then Spacing.tight.after cs
    else Spacing.joined.after cs

/-- The space in front of a text that does not begin with a blank. -/
def Spacing.lead (s : Spacing) : List Char → List Char
  | [] => []
  | ':' :: ':' :: _ => []
  | c :: _ => if isTightSign c then [] else s.owed

section

variable {s : Spacing} {c : Char} {cs : List Char}

theorem respace_cons (h : c = ':' → cs.head? ≠ some ':') :
    respace s (c :: cs) =
      if isBlank c then respace s.widen cs
      else if c = ',' then ',' :: ' ' :: respace .tight cs
      else if isTightSign c then c :: respace .tight cs
      else s.owed ++ c :: respace .joined cs := by
  rw [respace.eq_def]
  split
  · next he => cases he
  · next he =>
    obtain ⟨rfl, rfl⟩ := List.cons.inj he
    exact absurd rfl (h rfl)
  · next he =>
    obtain ⟨rfl, rfl⟩ := List.cons.inj he
    rfl

theorem after_cons (h : c = ':' → cs.head? ≠ some ':') :
    s.after (c :: cs) =
      if isBlank c then s.widen.after cs
      else if isTightSign c then Spacing.tight.after cs
      else Spacing.joined.after cs := by
  rw [Spacing.after.eq_def]
  split
  · next he => cases he
  · next he =>
    obtain ⟨rfl, rfl⟩ := List.cons.inj he
    exact absurd rfl (h rfl)
  · next he =>
    obtain ⟨rfl, rfl⟩ := List.cons.inj he
    rfl

theorem lead_cons (h : c = ':' → cs.head? ≠ some ':') :
    s.lead (c :: cs) = if isTightSign c then [] else s.owed := by
  rw [Spacing.lead]
  intro ds he hd
  exact h he (by rw [hd]; rfl)

theorem ne_colon_of_isBlank (h : isBlank c = true) : c ≠ ':' := by
  rintro rfl
  exact absurd h (by decide)

theorem respace_blank (h : isBlank c = true) : respace s (c :: cs) = respace s.widen cs := by
  rw [respace_cons (fun he => absurd he (ne_colon_of_isBlank h)), if_pos h]

theorem after_blank (h : isBlank c = true) : s.after (c :: cs) = s.widen.after cs := by
  rw [after_cons (fun he => absurd he (ne_colon_of_isBlank h)), if_pos h]

theorem respace_comma : respace s (',' :: cs) = ',' :: ' ' :: respace .tight cs := rfl

theorem after_comma : s.after (',' :: cs) = Spacing.tight.after cs := rfl

theorem respace_angle (h : c = '<' ∨ c = '>') : respace s (c :: cs) = c :: respace .tight cs := by
  rcases h with rfl | rfl <;> rfl

theorem after_angle (h : c = '<' ∨ c = '>') : s.after (c :: cs) = Spacing.tight.after cs := by
  rcases h with rfl | rfl <;> rfl

theorem respace_colons : respace s (':' :: ':' :: cs) = ':' :: ':' :: respace .tight cs := rfl

theorem after_colons : s.after (':' :: ':' :: cs) = Spacing.tight.after cs := rfl

theorem respace_colon (h : cs.head? ≠ some ':') :
    respace s (':' :: cs) = s.owed ++ ':' :: respace .joined cs := by
  rw [respace_cons fun _ => h]
  rfl

theorem after_colon (h : cs.head? ≠ some ':') :
    s.after (':' :: cs) = Spacing.joined.after cs := by
  rw [after_cons fun _ => h]
  rfl

theorem respace_inert (h : IsInert c) :
    respace s (c :: cs) = s.owed ++ c :: respace .joined cs := by
  have other : c ≠ ',' := by
    rintro rfl
    exact absurd h.2.1 (by decide)
  rw [respace_cons (fun he => absurd he h.2.2), h.1, h.2.1, if_neg other]
  rfl

theorem after_inert (h : IsInert c) : s.after (c :: cs) = Spacing.joined.after cs := by
  rw [after_cons (fun he => absurd he h.2.2), h.1, h.2.1]
  rfl

theorem character_cases (c : Char) :
    isBlank c = true ∨ c = ',' ∨ (c = '<' ∨ c = '>') ∨ c = ':' ∨ IsInert c := by
  by_cases blank : isBlank c = true
  · exact .inl blank
  by_cases colon : c = ':'
  · exact .inr (.inr (.inr (.inl colon)))
  by_cases sign : isTightSign c = true
  · simp only [isTightSign, Bool.or_eq_true, beq_iff_eq] at sign
    rcases sign with angle | rfl
    · exact .inr (.inr (.inl angle))
    · exact .inr (.inl rfl)
  · exact .inr (.inr (.inr (.inr ⟨by simpa using blank, by simpa using sign, colon⟩)))

end

/-- Induction along the canonical spelling: a pair of colons is one step, and any other character
is one by its sort. -/
theorem spacing_induction {motive : Spacing → List Char → Prop} (nil : ∀ s, motive s [])
    (colons : ∀ s cs, motive .tight cs → motive s (':' :: ':' :: cs))
    (colon : ∀ s cs, cs.head? ≠ some ':' → motive .joined cs → motive s (':' :: cs))
    (blank : ∀ s c cs, isBlank c = true → motive s.widen cs → motive s (c :: cs))
    (comma : ∀ s cs, motive .tight cs → motive s (',' :: cs))
    (angle : ∀ s c cs, c = '<' ∨ c = '>' → motive .tight cs → motive s (c :: cs))
    (inert : ∀ s c cs, IsInert c → motive .joined cs → motive s (c :: cs)) (s : Spacing)
    (cs : List Char) : motive s cs := by
  induction hn : cs.length using Nat.strongRecOn generalizing s cs with
  | ind n ih =>
    subst hn
    match cs with
    | [] => exact nil s
    | c :: rest =>
      have step (s : Spacing) : motive s rest := ih rest.length (by simp) s rest rfl
      obtain h | rfl | h | rfl | h := character_cases c
      · exact blank s c rest h (step s.widen)
      · exact comma s rest (step .tight)
      · exact angle s c rest h (step .tight)
      · by_cases pair : rest.head? = some ':'
        · obtain ⟨cs, rfl⟩ := List.head?_eq_some_iff.mp pair
          exact colons s cs (ih cs.length (by simp only [List.length_cons]; omega) .tight cs rfl)
        · exact colon s rest pair (step .joined)
      · exact inert s c rest h (step .joined)

/-! ### Cutting -/

theorem endsInColon_cons {c : Char} {cs : List Char} (h : c ≠ ':') :
    endsInColon (c :: cs) = endsInColon cs := by
  rw [endsInColon]
  · simp [h]
  · intro ds he _
    exact h he

theorem head?_append_ne {cs ys : List Char} (h : cs.head? ≠ some ':')
    (cut : endsInColon (':' :: cs) = true → ys.head? ≠ some ':') :
    (cs ++ ys).head? ≠ some ':' := by
  cases cs with
  | nil => exact cut rfl
  | cons c cs => exact h

theorem endsInColon_colon {cs : List Char} (h : cs.head? ≠ some ':')
    (ends : endsInColon cs = true) : endsInColon (':' :: cs) = true := by
  rw [endsInColon]
  · simp [ends]
  · intro ds _ hd
    exact h (by rw [hd]; rfl)

theorem endsInColon_of_colon {d : Char} {cs : List Char} (h : (d :: cs).head? ≠ some ':')
    (ends : endsInColon (':' :: d :: cs) = true) : endsInColon (d :: cs) = true := by
  rw [endsInColon] at ends
  · simpa using ends
  · intro ds _ hd
    exact h (by rw [hd]; rfl)

/-- Where there is no colon, it depends on what follows whether a colon is at the end. -/
theorem endsInColon_append {p : List Char} (h : ∀ c ∈ p, c ≠ ':') (x : List Char) :
    endsInColon (p ++ x) = endsInColon x := by
  induction p with
  | nil => rfl
  | cons c p ih =>
    rw [List.cons_append, endsInColon_cons (h c (List.mem_cons_self ..)),
      ih fun d hd => h d (List.mem_cons_of_mem c hd)]

theorem endsInColon_eq_false {p : List Char} (h : ∀ c ∈ p, c ≠ ':') : endsInColon p = false := by
  have all := endsInColon_append h []
  rwa [List.append_nil] at all

/-- The rest of a text is spelled as the state behind its front says. -/
theorem respace_append (s : Spacing) (xs ys : List Char)
    (cut : endsInColon xs = true → ys.head? ≠ some ':') :
    respace s (xs ++ ys) = respace s xs ++ respace (s.after xs) ys := by
  induction s, xs using spacing_induction with
  | nil s => rfl
  | colons s cs ih =>
    rw [List.cons_append, List.cons_append, respace_colons, respace_colons, after_colons, ih cut]
    rfl
  | colon s cs h ih =>
    have rest := ih fun ends => cut (endsInColon_colon h ends)
    rw [List.cons_append, respace_colon (head?_append_ne h cut), respace_colon h, after_colon h,
      rest]
    simp
  | blank s c cs h ih =>
    have rest := ih fun ends => cut ((endsInColon_cons (ne_colon_of_isBlank h)).trans ends)
    rw [List.cons_append, respace_blank h, respace_blank h, after_blank h, rest]
  | comma s cs ih =>
    have rest := ih fun ends => cut ((endsInColon_cons (by decide)).trans ends)
    rw [List.cons_append, respace_comma, respace_comma, after_comma, rest]
    rfl
  | angle s c cs h ih =>
    have other : c ≠ ':' := by rcases h with rfl | rfl <;> decide
    have rest := ih fun ends => cut ((endsInColon_cons other).trans ends)
    rw [List.cons_append, respace_angle h, respace_angle h, after_angle h, rest]
    rfl
  | inert s c cs h ih =>
    have rest := ih fun ends => cut ((endsInColon_cons h.2.2).trans ends)
    rw [List.cons_append, respace_inert h, respace_inert h, after_inert h, rest]
    simp

/-- Only a space depends on what stands in front of a text that begins with no blank. -/
theorem respace_eq_lead {c : Char} (h : isBlank c = false) (s : Spacing) (cs : List Char) :
    respace s (c :: cs) = s.lead (c :: cs) ++ respace .tight (c :: cs) := by
  by_cases pair : c = ':' ∧ cs.head? = some ':'
  · obtain ⟨rfl, hd⟩ := pair
    obtain ⟨ds, rfl⟩ := List.head?_eq_some_iff.mp hd
    rfl
  · have single (he : c = ':') : cs.head? ≠ some ':' := fun hd => pair ⟨he, hd⟩
    rw [respace_cons single, respace_cons single, lead_cons single, h]
    by_cases comma : c = ','
    · subst comma
      rfl
    · simp only [comma, Bool.false_eq_true, if_false]
      cases isTightSign c <;> rfl

/-! ### Inert texts -/

theorem respace_of_inert {p : List Char} (h : ∀ c ∈ p, IsInert c) (rest : List Char) :
    respace .joined (p ++ rest) = p ++ respace .joined rest := by
  induction p with
  | nil => rfl
  | cons c p ih =>
    rw [List.cons_append, respace_inert (h c (List.mem_cons_self ..)),
      ih fun d hd => h d (List.mem_cons_of_mem c hd)]
    rfl

theorem respace_eq_self {p : List Char} (h : ∀ c ∈ p, IsInert c) : respace .joined p = p := by
  have all := respace_of_inert h []
  rw [List.append_nil] at all
  exact all.trans (List.append_nil p)

/-- Every text has an inert part in front, behind which none stands. -/
theorem exists_inert_append_loose (cs : List Char) :
    ∃ p x, cs = p ++ x ∧ (∀ c ∈ p, IsInert c) ∧ Loose x := by
  induction cs with
  | nil => exact ⟨[], [], rfl, by simp, loose_nil⟩
  | cons c cs ih =>
    by_cases h : IsInert c
    · obtain ⟨p, x, rfl, inert, loose⟩ := ih
      exact ⟨c :: p, x, rfl, List.forall_mem_cons.mpr ⟨h, inert⟩, loose⟩
    · exact ⟨[], c :: cs, rfl, by simp, loose_cons.mpr h⟩

/-- Behind a blank there is a space or a sign. -/
theorem loose_respace_apart (cs : List Char) : Loose (respace .apart cs) := by
  have all (s : Spacing) (h : s = .apart) : Loose (respace s cs) := by
    induction s, cs using spacing_induction with
    | nil s => exact loose_nil
    | colons s cs ih => exact loose_cons.mpr (by decide)
    | colon s cs hd ih =>
      rw [respace_colon hd, h]
      exact loose_cons.mpr (by decide)
    | blank s c cs hc ih =>
      rw [respace_blank hc]
      exact ih (by rw [h]; rfl)
    | comma s cs ih => exact loose_cons.mpr (by decide)
    | angle s c cs hc ih =>
      rw [respace_angle hc]
      rcases hc with rfl | rfl <;> exact loose_cons.mpr (by decide)
    | inert s c cs hc ih =>
      rw [respace_inert hc, h]
      exact loose_cons.mpr (by decide)
  exact all .apart rfl

theorem loose_respace {cs : List Char} (h : Loose cs) : Loose (respace .joined cs) := by
  cases cs with
  | nil => exact loose_nil
  | cons c cs =>
    obtain hc | rfl | hc | rfl | hc := character_cases c
    · rw [respace_blank hc]
      exact loose_respace_apart cs
    · exact loose_cons.mpr (by decide)
    · rw [respace_angle hc]
      rcases hc with rfl | rfl <;> exact loose_cons.mpr (by decide)
    · by_cases pair : cs.head? = some ':'
      · obtain ⟨ds, rfl⟩ := List.head?_eq_some_iff.mp pair
        exact loose_cons.mpr (by decide)
      · rw [respace_colon pair]
        exact loose_cons.mpr (by decide)
    · exact absurd hc (loose_cons.mp h)

/-! ### Blanks at the ends -/

def AllBlank (b : List Char) : Prop := ∀ c ∈ b, isBlank c = true

theorem respace_of_blank {b : List Char} (h : ∀ c ∈ b, isBlank c = true) (s : Spacing) :
    respace s b = [] := by
  induction b generalizing s with
  | nil => rfl
  | cons c b ih =>
    rw [respace_blank (h c (List.mem_cons_self ..)), ih fun d hd => h d (List.mem_cons_of_mem c hd)]

theorem respace_blank_append {s : Spacing} (wide : s.widen = s) {b : List Char}
    (h : ∀ c ∈ b, isBlank c = true) (cs : List Char) : respace s (b ++ cs) = respace s cs := by
  induction b with
  | nil => rfl
  | cons c b ih =>
    rw [List.cons_append, respace_blank (h c (List.mem_cons_self ..)), wide]
    exact ih fun d hd => h d (List.mem_cons_of_mem c hd)

theorem respace_append_blank (s : Spacing) (cs : List Char) {b : List Char}
    (h : ∀ c ∈ b, isBlank c = true) : respace s (cs ++ b) = respace s cs := by
  have cut : b.head? ≠ some ':' := fun hd =>
    ne_colon_of_isBlank (h ':' (List.mem_of_mem_head? hd)) rfl
  rw [respace_append s cs b fun _ => cut, respace_of_blank h, List.append_nil]

end AnchorHarness.Rust
