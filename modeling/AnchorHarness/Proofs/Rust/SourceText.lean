import AnchorHarness.Proofs.Rust.Respelling

/-!
# Source texts of respelled tokens

The source text of respelled tokens is the canonical spelling of the source text, but for the space
behind a comma at the end. So it has the same canonical spelling, and its path has the same segments
up to their spelling.
-/

namespace AnchorHarness.Rust

open Text (isBlank)

/-- The text of tokens with the gap in front. -/
def bodyText (ts : List Token) : List Char := ts.flatMap fun t => t.gap ++ t.text

theorem bodyText_cons (t : Token) (ts : List Token) :
    bodyText (t :: ts) = t.gap ++ (t.text ++ bodyText ts) :=
  List.append_assoc ..

theorem bodyText_singleton (t : Token) : bodyText [t] = t.gap ++ t.text := by
  rw [bodyText_cons, bodyText, List.flatMap_nil, List.append_nil]

/-- Tokens that follow each other in a text. -/
structure Sound (ts : List Token) : Prop where
  tokens : ∀ t ∈ ts, t.IsSound
  gaps : ∀ t ∈ ts, ∀ c ∈ t.gap, isGap c = true
  cuts : ts.IsChain fun t u => endsInColon t.text = true → (u.gap ++ u.text).head? ≠ some ':'
  colons : colonsApart (sourceText ts) = true

/-- What the last token leaves to the gap behind it. -/
def carryAfter (k : Carry) : List Token → Carry
  | [] => k
  | t :: ts => carryAfter t.carry ts

theorem respell_append (k : Carry) (xs ys : List Token) :
    respell k (xs ++ ys) = respell k xs ++ respell (carryAfter k xs) ys := by
  induction xs generalizing k with
  | nil => rfl
  | cons t xs ih => exact congrArg (t.respelled k :: ·) (ih t.carry)

theorem bodyText_append (xs ys : List Token) : bodyText (xs ++ ys) = bodyText xs ++ bodyText ys :=
  List.flatMap_append

/-! ### Parts of sound lists -/

theorem sourceText_cons_append (t : Token) (xs ys : List Token) :
    sourceText (t :: xs ++ ys) = sourceText (t :: xs) ++ bodyText ys := by
  change t.text ++ bodyText (xs ++ ys) = t.text ++ bodyText xs ++ bodyText ys
  rw [bodyText_append, List.append_assoc]

theorem exists_bodyText (ts : List Token) : ∃ gap, bodyText ts = gap ++ sourceText ts := by
  cases ts with
  | nil => exact ⟨[], rfl⟩
  | cons t ts => exact ⟨t.gap, bodyText_cons t ts⟩

theorem exists_sourceText_append (xs ys : List Token) :
    ∃ before behind, sourceText (xs ++ ys) = before ++ sourceText ys ∧
      sourceText (xs ++ ys) = sourceText xs ++ behind := by
  cases xs with
  | nil => exact ⟨[], sourceText ys, rfl, rfl⟩
  | cons t xs =>
    obtain ⟨gap, he⟩ := exists_bodyText ys
    refine ⟨sourceText (t :: xs) ++ gap, bodyText ys, ?_, sourceText_cons_append t xs ys⟩
    rw [sourceText_cons_append, he, List.append_assoc]

theorem Sound.left {xs ys : List Token} (h : Sound (xs ++ ys)) : Sound xs := by
  obtain ⟨-, behind, -, he⟩ := exists_sourceText_append xs ys
  refine ⟨fun t ht => h.tokens t (List.mem_append_left ys ht),
    fun t ht => h.gaps t (List.mem_append_left ys ht), h.cuts.left_of_append, ?_⟩
  exact colonsApart_of_append_left (he ▸ h.colons)

theorem Sound.right {xs ys : List Token} (h : Sound (xs ++ ys)) : Sound ys := by
  obtain ⟨before, -, he, -⟩ := exists_sourceText_append xs ys
  refine ⟨fun t ht => h.tokens t (List.mem_append_right xs ht),
    fun t ht => h.gaps t (List.mem_append_right xs ht), h.cuts.right_of_append, ?_⟩
  exact colonsApart_of_append_right (he ▸ h.colons)

/-! ### Spelled texts -/

theorem head?_bodyText {t : Token} (h : t.IsSound) (ts : List Token) :
    (bodyText (t :: ts)).head? = (t.gap ++ t.text).head? := by
  obtain ⟨c, front, text, -⟩ := h.starts
  have some : t.gap ++ t.text ≠ [] := by simp [text]
  rw [bodyText_cons, ← List.append_assoc, List.head?_append_of_ne_nil _ some]

theorem cut_bodyText {t : Token} {ts : List Token} (tokens : ∀ u ∈ ts, u.IsSound)
    (cuts : (t :: ts).IsChain fun t u =>
      endsInColon t.text = true → (u.gap ++ u.text).head? ≠ some ':') :
    endsInColon t.text = true → (bodyText ts).head? ≠ some ':' := by
  cases ts with
  | nil => exact fun _ => by simp [bodyText]
  | cons u ts =>
    rw [head?_bodyText (tokens u (List.mem_cons_self ..))]
    exact (List.isChain_cons_cons.mp cuts).1

theorem carry_append_bodyText {ts : List Token} (tokens : ∀ t ∈ ts, t.IsSound)
    (gaps : ∀ t ∈ ts, ∀ c ∈ t.gap, isGap c = true)
    (cuts : ts.IsChain fun t u => endsInColon t.text = true → (u.gap ++ u.text).head? ≠ some ':')
    (k : Carry) :
    k.gap ++ respace k.spacing (bodyText ts) =
      bodyText (respell k ts) ++ (carryAfter k ts).gap := by
  induction ts generalizing k with
  | nil => exact List.append_nil _
  | cons t ts ih =>
    have behind : ∀ u ∈ ts, u.IsSound := fun u hu => tokens u (List.mem_cons_of_mem t hu)
    have rest := ih behind (fun u hu => gaps u (List.mem_cons_of_mem t hu))
      (List.isChain_of_isChain_cons cuts) t.carry
    rw [bodyText_cons, (tokens t (List.mem_cons_self ..)).carry_append
      (gaps t (List.mem_cons_self ..)) (cut_bodyText behind cuts) k, rest, respell, bodyText_cons,
      carryAfter, List.append_assoc, List.append_assoc]

theorem isBlank_carryAfter {k : Carry} (hk : ∀ c ∈ k.gap, isBlank c = true) (ts : List Token) :
    ∀ c ∈ (carryAfter k ts).gap, isBlank c = true := by
  induction ts generalizing k with
  | nil => exact hk
  | cons t ts ih => exact ih (isBlank_carry t)

/-- The canonical spelling of a source text is that of its tokens, with what is left behind them. -/
theorem exists_canonicalType_sourceText {ts : List Token} (h : Sound ts) (k : Carry) :
    ∃ b, canonicalType (sourceText ts) = sourceText (respell k ts) ++ b ∧
      ∀ c ∈ b, isBlank c = true := by
  cases ts with
  | nil => exact ⟨[], rfl, by simp⟩
  | cons t ts =>
    have sound := h.tokens t (List.mem_cons_self ..)
    have behind : ∀ u ∈ ts, u.IsSound := fun u hu => h.tokens u (List.mem_cons_of_mem t hu)
    have rest := carry_append_bodyText behind (fun u hu => h.gaps u (List.mem_cons_of_mem t hu))
      (List.isChain_of_isChain_cons h.cuts) t.carry
    refine ⟨(carryAfter t.carry ts).gap, ?_, isBlank_carryAfter (isBlank_carry t) ts⟩
    calc canonicalType (sourceText (t :: ts)) = respace .tight (t.text ++ bodyText ts) := rfl
      _ = t.spelled ++ (t.carry.gap ++ respace t.carry.spacing (bodyText ts)) := by
          rw [sound.respace_eq (cut_bodyText behind h.cuts), lead_eq_nil rfl, List.nil_append]
      _ = t.spelled ++ (bodyText (respell t.carry ts) ++ (carryAfter t.carry ts).gap) := by
          rw [rest]
      _ = _ := (List.append_assoc ..).symm

/-- Respelled tokens have the canonical text of the tokens. -/
theorem canonicalType_sourceText_respell {ts : List Token} (h : Sound ts) (k : Carry) :
    canonicalType (sourceText (respell k ts)) = canonicalType (sourceText ts) := by
  obtain ⟨b, he, blank⟩ := exists_canonicalType_sourceText h k
  calc canonicalType (sourceText (respell k ts))
      = canonicalType (sourceText (respell k ts) ++ b) := (respace_append_blank _ _ blank).symm
    _ = canonicalType (canonicalType (sourceText ts)) := by rw [he]
    _ = canonicalType (sourceText ts) := canonicalType_canonicalType h.colons

/-- Respelled tokens have the respelled segments. -/
theorem pathSegments_sourceText_respell {ts : List Token} (h : Sound ts) (k : Carry) :
    pathSegments (sourceText (respell k ts)) =
      (pathSegments (sourceText ts)).map respelledSegment := by
  obtain ⟨b, he, blank⟩ := exists_canonicalType_sourceText h k
  calc pathSegments (sourceText (respell k ts))
      = pathSegments (sourceText (respell k ts) ++ b) := (pathSegments_append_blank _ blank).symm
    _ = pathSegments (canonicalType (sourceText ts)) := by rw [he]
    _ = _ := pathSegments_canonicalType h.colons

/-! ### Tokens of a text -/

theorem head?_bodyText_append {ts : List Token} (tokens : ∀ t ∈ ts, t.IsSound) {u : Token}
    (hu : ts.head? = some u) (behind : List Char) :
    (bodyText ts ++ behind).head? = (u.gap ++ u.text).head? := by
  obtain ⟨ts, rfl⟩ := List.head?_eq_some_iff.mp hu
  obtain ⟨c, front, text, -⟩ := (tokens u (List.mem_cons_self ..)).starts
  have some : bodyText (u :: ts) ≠ [] := by simp [bodyText_cons, text]
  rw [List.head?_append_of_ne_nil _ some, head?_bodyText (tokens u (List.mem_cons_self ..))]

theorem sound_tokenize {cs : List Char} (h : Respaceable cs) : Sound (tokenize cs) := by
  have all : (∀ t ∈ tokenize cs, t.IsSound ∧ ∀ c ∈ t.gap, isGap c = true) ∧
      (tokenize cs).IsChain
        (fun t u => endsInColon t.text = true → (u.gap ++ u.text).head? ≠ some ':') ∧
      ∃ behind, cs = bodyText (tokenize cs) ++ behind := by
    refine tokenize_induction (motive := fun cs =>
      (∀ t ∈ tokenize cs, t.IsSound ∧ ∀ c ∈ t.gap, isGap c = true) ∧
        (tokenize cs).IsChain
          (fun t u => endsInColon t.text = true → (u.gap ++ u.text).head? ≠ some ':') ∧
        ∃ behind, cs = bodyText (tokenize cs) ++ behind) ?_ ?_ cs h
    · intro g hg
      rw [tokenize_gap hg]
      exact ⟨by simp, .nil, g, rfl⟩
    · intro t c front spelled rest hg hc read ih
      obtain ⟨tokens, cuts, behind, he⟩ := ih
      rw [read.tokenize_eq hg hc]
      refine ⟨List.forall_mem_cons.mpr ⟨⟨read.sound hc, hg⟩, tokens⟩, ?_, behind, ?_⟩
      · refine List.isChain_cons.mpr ⟨fun u hu ends => ?_, cuts⟩
        rw [← head?_bodyText_append (fun t ht => (tokens t ht).1) hu behind, ← he]
        exact read.cut ends
      · rw [bodyText_cons, List.append_assoc, List.append_assoc, ← he]
  obtain ⟨tokens, cuts, behind, he⟩ := all
  refine ⟨fun t ht => (tokens t ht).1, fun t ht => (tokens t ht).2, cuts, ?_⟩
  obtain ⟨gap, hb⟩ := exists_bodyText (tokenize cs)
  have colons := h.colons
  rw [he, hb] at colons
  exact colonsApart_of_append_right (colonsApart_of_append_left colons)

end AnchorHarness.Rust
