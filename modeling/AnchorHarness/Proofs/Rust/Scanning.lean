import AnchorHarness.Proofs.Rust.Spacing
import AnchorHarness.Rust.Token

/-!
# Scanning respaced texts

Quoted texts, raw texts and block comments are read up to a mark of inert characters. Blanks and
signs mean nothing to a scan but that the characters on both sides are apart, so a scan of the
canonical spelling ends where the scan of the text does.
-/

namespace AnchorHarness.Rust

open Text (isBlank)

/-! ### Scans -/

/-- A scan finds the front of a text, and in the spelling of the text the spelling of the front. -/
structure Scans (f : List Char → Nat) (s : Spacing) (front rest : List Char) : Prop where
  here : f (front ++ rest) = front.length
  there : f (respace s (front ++ rest)) = (respace s front).length
  cut : endsInColon front = true → rest.head? ≠ some ':'

/-- A scan finds a front of the text. -/
def Respaces (f : List Char → Nat) (s : Spacing) (cs : List Char) : Prop :=
  ∃ front rest, cs = front ++ rest ∧ Scans f s front rest

section

variable {f g : List Char → Nat} {s : Spacing}

theorem Scans.respace_eq {front rest : List Char} (h : Scans f s front rest) :
    respace s (front ++ rest) = respace s front ++ respace (s.after front) rest :=
  respace_append s front rest h.cut

/-- A scan that reads inert characters and goes on with another one. -/
theorem Scans.inert_append {front rest : List Char} (h : Scans g .joined front rest)
    (p : List Char) (inert : ∀ c ∈ p, IsInert c)
    (here : ∀ cs, cs = front ++ rest ∨ cs = respace .joined (front ++ rest) →
      f (p ++ cs) = p.length + g cs) : Scans f .joined (p ++ front) rest := by
  refine ⟨?_, ?_, ?_⟩
  · rw [List.append_assoc, here _ (.inl rfl), h.here, List.length_append]
  · rw [List.append_assoc, respace_of_inert inert, here _ (.inr rfl), h.there,
      respace_of_inert inert, List.length_append]
  · rw [endsInColon_append fun c hc => (inert c hc).2.2]
    exact h.cut

theorem scans_zero (s : Spacing) (cs : List Char) : Scans (fun _ => 0) s [] cs :=
  ⟨rfl, rfl, fun h => by cases h⟩

theorem scan_append {p : List Char} (h : ∀ c ∈ p, ¬IsInert c)
    (neutral : ∀ c cs, ¬IsInert c → f (c :: cs) = f cs + 1) (cs : List Char) :
    f (p ++ cs) = p.length + f cs := by
  induction p with
  | nil => exact (Nat.zero_add _).symm
  | cons c p ih =>
    rw [List.cons_append, neutral c _ (h c (List.mem_cons_self ..)),
      ih fun d hd => h d (List.mem_cons_of_mem c hd), List.length_cons]
    omega

/-- A scan passes over blanks and signs, and over what they are spelled as. -/
theorem Scans.neutral_append {s' : Spacing} {front rest : List Char} (h : Scans f s' front rest)
    (p q : List Char) (neutral : ∀ c cs, ¬IsInert c → f (c :: cs) = f cs + 1)
    (before : ∀ c ∈ p, ¬IsInert c) (behind : ∀ c ∈ q, ¬IsInert c)
    (spelled : ∀ cs, cs = front ∨ cs = front ++ rest → respace s (p ++ cs) = q ++ respace s' cs)
    (cut : endsInColon (p ++ front) = true → rest.head? ≠ some ':') :
    Scans f s (p ++ front) rest := by
  refine ⟨?_, ?_, cut⟩
  · rw [List.append_assoc, scan_append before neutral, h.here, List.length_append]
  · rw [List.append_assoc, spelled _ (.inr rfl), scan_append behind neutral, h.there,
      spelled _ (.inl rfl), List.length_append]

/-- A space in front is passed over. -/
theorem Scans.of_joined {c : Char} {front rest : List Char} (h : Scans f .joined (c :: front) rest)
    (inert : IsInert c) (space : ∀ cs, f (' ' :: cs) = f cs + 1) :
    Scans f s (c :: front) rest := by
  refine ⟨h.here, ?_, h.cut⟩
  have there := h.there
  simp only [List.cons_append, respace_inert inert] at there ⊢
  cases s with
  | tight => exact there
  | joined => exact there
  | apart =>
    change f (' ' :: (c :: respace .joined (front ++ rest))) = _
    rw [space]
    change f (c :: respace .joined (front ++ rest)) = (c :: respace .joined front).length at there
    rw [there]
    rfl

end

/-- What a scan makes of inert characters decides where it ends; anything else it passes over. -/
theorem respaces_of_step {ι : Type} (f : ι → List Char → Nat) (nil : ∀ i, f i [] = 0)
    (neutral : ∀ i c cs, ¬IsInert c → f i (c :: cs) = f i cs + 1)
    (step : ∀ i c cs, IsInert c → (∀ j ds, ds.length ≤ cs.length → Respaces (f j) .joined ds) →
      ∃ front rest, cs = front ++ rest ∧ Scans (f i) .joined (c :: front) rest)
    (i : ι) (s : Spacing) (cs : List Char) : Respaces (f i) s cs := by
  induction hn : cs.length using Nat.strongRecOn generalizing i s cs with
  | ind n ih =>
    subst hn
    match cs with
    | [] => exact ⟨[], [], rfl, nil i, nil i, fun h => by cases h⟩
    | c :: cs =>
      have shorter (s : Spacing) : Respaces (f i) s cs := ih cs.length (by simp) i s cs rfl
      have owed : ∀ d ∈ s.owed, ¬IsInert d := by
        intro d hd
        cases s <;> simp [Spacing.owed] at hd
        subst hd
        decide
      obtain h | rfl | h | rfl | h := character_cases c
      · obtain ⟨front, rest, rfl, scans⟩ := shorter s.widen
        have other : ¬IsInert c := fun inert => by simp [inert.1] at h
        refine ⟨c :: front, rest, rfl,
          scans.neutral_append [c] [] (neutral i) (by simpa using other) (by simp)
            (fun cs _ => respace_blank h) ?_⟩
        exact fun ends => scans.cut ((endsInColon_cons (ne_colon_of_isBlank h)).symm.trans ends)
      · obtain ⟨front, rest, rfl, scans⟩ := shorter .tight
        refine ⟨',' :: front, rest, rfl,
          scans.neutral_append [','] [',', ' '] (neutral i) (List.all_iff_forall_prop.mp rfl)
            (List.all_iff_forall_prop.mp rfl) (fun cs _ => respace_comma) ?_⟩
        exact fun ends => scans.cut ((endsInColon_cons (by decide)).symm.trans ends)
      · obtain ⟨front, rest, rfl, scans⟩ := shorter .tight
        have other : ¬IsInert c ∧ c ≠ ':' := by rcases h with rfl | rfl <;> decide
        refine ⟨c :: front, rest, rfl,
          scans.neutral_append [c] [c] (neutral i) (by simpa using other.1) (by simpa using other.1)
            (fun cs _ => respace_angle h) ?_⟩
        exact fun ends => scans.cut ((endsInColon_cons other.2).symm.trans ends)
      · by_cases pair : cs.head? = some ':'
        · obtain ⟨cs, rfl⟩ := List.head?_eq_some_iff.mp pair
          obtain ⟨front, rest, rfl, scans⟩ :=
            ih cs.length (by simp only [List.length_cons]; omega) i .tight cs rfl
          exact ⟨':' :: ':' :: front, rest, rfl,
            scans.neutral_append [':', ':'] [':', ':'] (neutral i)
              (List.all_iff_forall_prop.mp rfl) (List.all_iff_forall_prop.mp rfl)
              (fun cs _ => respace_colons) scans.cut⟩
        · obtain ⟨front, rest, rfl, scans⟩ := shorter .joined
          have single : front.head? ≠ some ':' := by
            cases front with
            | nil => simp
            | cons d front => exact pair
          refine ⟨':' :: front, rest, rfl,
            scans.neutral_append [':'] (s.owed ++ [':']) (neutral i)
              (List.all_iff_forall_prop.mp rfl) ?_ ?_ ?_⟩
          · intro d hd
            rcases List.mem_append.mp hd with hd | hd
            · exact owed d hd
            · rw [List.mem_singleton.mp hd]
              decide
          · rintro ds (rfl | rfl)
            · rw [List.append_assoc]
              exact respace_colon single
            · rw [List.append_assoc]
              exact respace_colon pair
          · cases front with
            | nil => exact fun _ => pair
            | cons d front => exact fun ends => scans.cut (endsInColon_of_colon single ends)
      · have others (j : ι) (ds : List Char) (hds : ds.length ≤ cs.length) :
            Respaces (f j) .joined ds :=
          ih ds.length (by simp only [List.length_cons]; omega) j .joined ds rfl
        obtain ⟨front, rest, rfl, scans⟩ := step i c cs h others
        exact ⟨c :: front, rest, rfl, scans.of_joined h (neutral i ' ' · (by decide))⟩

/-! ### Quoted texts -/

theorem quotedLength_of_ne {quote c : Char} (slash : c ≠ '\\') (other : c ≠ quote)
    (cs : List Char) :
    quotedLength quote (c :: cs) = quotedLength quote cs + 1 := by
  rw [quotedLength, if_neg other]
  · rintro rfl
    exact absurd rfl slash
  · rintro d ds rfl
    exact absurd rfl slash

theorem quotedLength_quote {quote : Char} (slash : quote ≠ '\\') (cs : List Char) :
    quotedLength quote (quote :: cs) = 1 := by
  rw [quotedLength, if_pos rfl]
  · rintro rfl
    exact absurd rfl slash
  · rintro d ds rfl
    exact absurd rfl slash

/-- A backslash in front of a blank or a sign means nothing. -/
theorem quotedLength_slash {quote : Char} (inert : IsInert quote) {cs : List Char} (h : Loose cs) :
    quotedLength quote ('\\' :: cs) = quotedLength quote cs + 1 := by
  cases cs with
  | nil => rfl
  | cons d cs =>
    have loose : ¬IsInert d := loose_cons.mp h
    have slash : d ≠ '\\' := by
      rintro rfl
      exact loose (by decide)
    have other : d ≠ quote := by
      rintro rfl
      exact loose inert
    rw [quotedLength, quotedLength_of_ne slash other]

theorem respaces_quotedLength {quote : Char} (inert : IsInert quote) (slash : quote ≠ '\\')
    (s : Spacing) (cs : List Char) : Respaces (quotedLength quote) s cs := by
  refine respaces_of_step (fun _ : Unit => quotedLength quote) (fun _ => rfl) ?_ ?_ () s cs
  · intro _ c cs loose
    refine quotedLength_of_ne ?_ ?_ cs
    · rintro rfl
      exact loose (by decide)
    · rintro rfl
      exact loose inert
  · intro _ c cs hc shorter
    by_cases escape : c = '\\'
    · subst escape
      by_cases loose : Loose cs
      · obtain ⟨front, rest, rfl, scans⟩ := shorter () cs (Nat.le_refl _)
        refine ⟨front, rest, rfl, scans.inert_append ['\\'] (by simpa using hc) ?_⟩
        rintro ds (rfl | rfl)
        · exact (quotedLength_slash inert loose).trans (Nat.add_comm ..)
        · exact (quotedLength_slash inert (loose_respace loose)).trans (Nat.add_comm ..)
      · obtain ⟨d, ds, rfl, hd⟩ := exists_cons_of_not_loose loose
        obtain ⟨front, rest, rfl, scans⟩ := shorter () ds (Nat.le_succ _)
        refine ⟨d :: front, rest, rfl, scans.inert_append ['\\', d] ?_ ?_⟩
        · exact List.forall_mem_cons.mpr ⟨hc, by simpa using hd⟩
        · intro es _
          exact Nat.add_comm ..
    · by_cases closes : c = quote
      · subst closes
        refine ⟨[], cs, rfl, (scans_zero .joined cs).inert_append [c] (by simpa using hc) ?_⟩
        intro ds _
        exact quotedLength_quote slash ds
      · obtain ⟨front, rest, rfl, scans⟩ := shorter () cs (Nat.le_refl _)
        refine ⟨front, rest, rfl, scans.inert_append [c] (by simpa using hc) ?_⟩
        intro ds _
        exact (quotedLength_of_ne escape closes ds).trans (Nat.add_comm ..)

/-! ### Raw texts -/

/-- Copies of an inert character are all found in the inert part in front. -/
theorem take_eq_replicate_iff {x : List Char} {c : Char} (inert : IsInert c) (loose : Loose x)
    (p : List Char) (n : Nat) :
    (p ++ x).take n = List.replicate n c ↔ p.take n = List.replicate n c := by
  induction n generalizing p with
  | zero => simp
  | succ n ih =>
    cases p with
    | nil =>
      cases x with
      | nil => rfl
      | cons d x =>
        have other : d ≠ c := by
          rintro rfl
          exact loose_cons.mp loose inert
        simp [List.replicate_succ, other]
    | cons d p =>
      simp only [List.cons_append, List.take_succ_cons, List.replicate_succ, List.cons.injEq, ih]

theorem rawLength_of_not {hashes : Nat} {c : Char} {cs : List Char}
    (h : ¬(c = '"' ∧ cs.take hashes = List.replicate hashes '#')) :
    rawLength hashes (c :: cs) = rawLength hashes cs + 1 := by
  rw [rawLength, if_neg h]

theorem respaces_rawLength (hashes : Nat) (s : Spacing) (cs : List Char) :
    Respaces (rawLength hashes) s cs := by
  refine respaces_of_step (fun _ : Unit => rawLength hashes) (fun _ => rfl) ?_ ?_ () s cs
  · intro _ c cs loose
    refine rawLength_of_not ?_
    rintro ⟨rfl, -⟩
    exact loose (by decide)
  · intro _ c cs hc shorter
    by_cases closes : c = '"' ∧ cs.take hashes = List.replicate hashes '#'
    · obtain ⟨rfl, marks⟩ := closes
      have split : cs = List.replicate hashes '#' ++ cs.drop hashes := by
        rw [← marks, List.take_append_drop]
      have inert : ∀ d ∈ '"' :: List.replicate hashes '#', IsInert d := by
        refine List.forall_mem_cons.mpr ⟨hc, fun d hd => ?_⟩
        rw [(List.mem_replicate.mp hd).2]
        decide
      have scans := (scans_zero .joined (cs.drop hashes)).inert_append _ inert fun ds _ => by
        show rawLength hashes ('"' :: (List.replicate hashes '#' ++ ds)) = _
        rw [rawLength, if_pos ⟨rfl, by simp⟩, List.length_cons, List.length_replicate]
      rw [List.append_nil] at scans
      exact ⟨_, _, split, scans⟩
    · obtain ⟨front, rest, hs, scans⟩ := shorter () cs (Nat.le_refl _)
      refine ⟨front, rest, hs, scans.inert_append [c] (by simpa using hc) ?_⟩
      rw [← hs]
      have ends : ¬(c = '"' ∧ (respace .joined cs).take hashes = List.replicate hashes '#') := by
        obtain ⟨p, x, rfl, inert, loose⟩ := exists_inert_append_loose cs
        rw [respace_of_inert inert, take_eq_replicate_iff (by decide) (loose_respace loose)]
        rwa [take_eq_replicate_iff (by decide) loose] at closes
      rintro ds (rfl | rfl)
      · exact (rawLength_of_not closes).trans (Nat.add_comm ..)
      · exact (rawLength_of_not ends).trans (Nat.add_comm ..)

/-! ### Block comments -/

theorem blockLength_of_not {depth : Nat} {c : Char} {cs : List Char}
    (opens : ¬(c = '/' ∧ cs.head? = some '*')) (closes : ¬(c = '*' ∧ cs.head? = some '/')) :
    blockLength depth (c :: cs) = blockLength depth cs + 1 := by
  rw [blockLength]
  · rintro ds rfl rfl
    exact opens ⟨rfl, rfl⟩
  · rintro ds - rfl rfl
    exact closes ⟨rfl, rfl⟩
  · rintro n ds - rfl rfl
    exact closes ⟨rfl, rfl⟩

theorem head?_respace {d : Char} (h : IsInert d) (cs : List Char) :
    (respace .joined cs).head? = some d ↔ cs.head? = some d := by
  obtain ⟨p, x, rfl, inert, loose⟩ := exists_inert_append_loose cs
  rw [respace_of_inert inert]
  cases p with
  | nil =>
    have absent : x.head? ≠ some d := fun hd => loose d hd h
    have absent' : (respace .joined x).head? ≠ some d := fun hd => loose_respace loose d hd h
    exact iff_of_false absent' absent
  | cons c p => rfl

theorem respaces_blockLength (depth : Nat) (s : Spacing) (cs : List Char) :
    Respaces (blockLength depth) s cs := by
  have opening : ∀ c ∈ ['/', '*'], IsInert c := List.all_iff_forall_prop.mp rfl
  have closing : ∀ c ∈ ['*', '/'], IsInert c := List.all_iff_forall_prop.mp rfl
  refine respaces_of_step blockLength (fun depth => by rw [blockLength]) ?_ ?_ depth s cs
  · intro depth c cs loose
    refine blockLength_of_not ?_ ?_
    · rintro ⟨rfl, -⟩
      exact loose (by decide)
    · rintro ⟨rfl, -⟩
      exact loose (by decide)
  · intro depth c cs hc shorter
    by_cases opens : c = '/' ∧ cs.head? = some '*'
    · obtain ⟨rfl, hd⟩ := opens
      obtain ⟨cs, rfl⟩ := List.head?_eq_some_iff.mp hd
      obtain ⟨front, rest, rfl, scans⟩ := shorter (depth + 1) cs (Nat.le_succ _)
      exact ⟨'*' :: front, rest, rfl, scans.inert_append ['/', '*'] opening
        fun ds _ => Nat.add_comm ..⟩
    · by_cases closes : c = '*' ∧ cs.head? = some '/'
      · obtain ⟨rfl, hd⟩ := closes
        obtain ⟨cs, rfl⟩ := List.head?_eq_some_iff.mp hd
        cases depth with
        | zero =>
          exact ⟨['/'], cs, rfl, (scans_zero .joined cs).inert_append ['*', '/'] closing
            fun ds _ => rfl⟩
        | succ depth =>
          obtain ⟨front, rest, rfl, scans⟩ := shorter depth cs (Nat.le_succ _)
          exact ⟨'/' :: front, rest, rfl, scans.inert_append ['*', '/'] closing
            fun ds _ => Nat.add_comm ..⟩
      · obtain ⟨front, rest, hs, scans⟩ := shorter depth cs (Nat.le_refl _)
        refine ⟨front, rest, hs, scans.inert_append [c] (by simpa using hc) ?_⟩
        rw [← hs]
        rintro ds (rfl | rfl)
        · exact (blockLength_of_not opens closes).trans (Nat.add_comm ..)
        · rw [← head?_respace (by decide) cs] at opens closes
          exact (blockLength_of_not opens closes).trans (Nat.add_comm ..)

end AnchorHarness.Rust
