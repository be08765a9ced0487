import AnchorHarness.Proofs.Rust.Scanning
import Mathlib.Tactic.SplitIfs

/-!
# Tokens of respaced texts
-/

namespace AnchorHarness.Rust

open Text (isBlank)

/-! ### Lexemes -/

/-- Tokens of inert characters, and symbols. -/
def TokenKind.isPlain : TokenKind → Bool
  | .word | .lifetime | .number | .symbol => true
  | .character | .text | .rawText | .comment => false

/-- A lexeme of some kind is the front of a text, and in the spelling of the text it is the spelling
of the front. -/
structure Lexes (g : List Char → TokenKind × Nat) (kind : TokenKind) (front rest : List Char) :
    Prop where
  here : g (front ++ rest) = (kind, front.length)
  there : g (respace .joined (front ++ rest)) = (kind, (respace .joined front).length)
  cut : endsInColon front = true → rest.head? ≠ some ':'
  plain : kind.isPlain = true → respace .joined front = front

section

variable {f : List Char → Nat} {g : List Char → TokenKind × Nat} {kind : TokenKind}

/-- A lexeme that is opened by inert characters and closed by a scan. -/
theorem Scans.lexes {front rest : List Char} (h : Scans f .joined front rest)
    (content : kind.isPlain = false) (p : List Char) (inert : ∀ c ∈ p, IsInert c)
    (opens : ∀ cs, cs = front ++ rest ∨ cs = respace .joined (front ++ rest) →
      g (p ++ cs) = (kind, p.length + f cs)) : Lexes g kind (p ++ front) rest := by
  refine ⟨?_, ?_, ?_, ?_⟩
  · rw [List.append_assoc, opens _ (.inl rfl), h.here, List.length_append]
  · rw [List.append_assoc, respace_of_inert inert, opens _ (.inr rfl), h.there,
      respace_of_inert inert, List.length_append]
  · rw [endsInColon_append fun c hc => (inert c hc).2.2]
    exact h.cut
  · rw [content]
    intro plain
    cases plain

/-- A lexeme that is read off the inert characters in front. -/
theorem lexes_of_inert {p x : List Char} {n : Nat} (inert : ∀ c ∈ p, IsInert c) (loose : Loose x)
    (bound : n ≤ p.length) (h : ∀ y, Loose y → g (p ++ y) = (kind, n)) :
    Lexes g kind (p.take n) (p.drop n ++ x) := by
  have all : p.take n ++ (p.drop n ++ x) = p ++ x := by
    rw [← List.append_assoc, List.take_append_drop]
  have front : ∀ c ∈ p.take n, IsInert c := fun c hc => inert c (List.mem_of_mem_take hc)
  have length : (p.take n).length = n := List.length_take_of_le bound
  have spelled : respace .joined (p.take n) = p.take n := respace_eq_self front
  refine ⟨?_, ?_, ?_, fun _ => spelled⟩
  · rw [all, h x loose, length]
  · rw [all, respace_of_inert inert, h _ (loose_respace loose), spelled, length]
  · rw [endsInColon_eq_false fun c hc => (front c hc).2.2]
    intro ends
    cases ends

end

/-! ### Names and numbers -/

theorem not_isNameCharacter_of_isBlank {c : Char} (h : isBlank c = true) :
    isNameCharacter c = false := by
  have gap : isGap c = true := by simp [isGap, h]
  have under : c ≠ '_' := by
    rintro rfl
    exact absurd h (by decide)
  have order (a b : Char) : a ≤ b ↔ a.toNat ≤ b.toNat := Iff.rfl
  simp only [isBlank, Bool.or_eq_true, Bool.and_eq_true, decide_eq_true_eq, beq_iff_eq] at h
  simp only [isNameCharacter, isDigit, gap, Bool.not_true, Bool.and_false, Bool.or_false,
    Bool.or_eq_false_iff, Bool.and_eq_false_iff, decide_eq_false_iff_not, order, Char.reduceToNat]
  refine ⟨⟨⟨?_, ?_⟩, ?_⟩, by simpa using under⟩
  · omega
  · omega
  · omega

theorem isInert_of_isNameCharacter {c : Char} (h : isNameCharacter c = true) : IsInert c := by
  obtain blank | rfl | (rfl | rfl) | rfl | inert := character_cases c
  · rw [not_isNameCharacter_of_isBlank blank] at h
    cases h
  · exact absurd h (by decide)
  · exact absurd h (by decide)
  · exact absurd h (by decide)
  · exact absurd h (by decide)
  · exact inert

theorem isNameCharacter_of_isDigit {c : Char} (h : isDigit c = true) :
    isNameCharacter c = true := by
  simp [isNameCharacter, h]

theorem not_isNameCharacter_of_loose {c : Char} {cs : List Char} (h : Loose (c :: cs)) :
    isNameCharacter c = false :=
  Bool.eq_false_iff.mpr fun name => loose_cons.mp h (isInert_of_isNameCharacter name)

/-- What a test for inert characters takes from the front ends where the inert characters do. -/
theorem takeWhile_append_loose {test : Char → Bool} (inert : ∀ c, test c = true → IsInert c)
    (p : List Char) {x : List Char} (h : Loose x) :
    (p ++ x).takeWhile test = p.takeWhile test := by
  induction p with
  | nil =>
    cases x with
    | nil => rfl
    | cons c x =>
      have fails : ¬test c = true := fun passes => loose_cons.mp h (inert c passes)
      rw [List.nil_append, List.takeWhile_cons_of_neg fails]
      rfl
  | cons c p ih =>
    by_cases passes : test c = true
    · rw [List.cons_append, List.takeWhile_cons_of_pos passes,
        List.takeWhile_cons_of_pos passes, ih]
    · rw [List.cons_append, List.takeWhile_cons_of_neg passes, List.takeWhile_cons_of_neg passes]

theorem nameLength_append (p : List Char) {x : List Char} (h : Loose x) :
    nameLength (p ++ x) = nameLength p := by
  rw [nameLength, takeWhile_append_loose (fun _ => isInert_of_isNameCharacter) p h]
  rfl

theorem nameLength_le (cs : List Char) : nameLength cs ≤ cs.length :=
  (List.takeWhile_sublist _).length_le

/-- The number of characters of an exponent with a sign. -/
def exponentLength? : List Char → Option Nat
  | e :: sign :: d :: rest =>
    if (e == 'e' || e == 'E') && (sign == '+' || sign == '-') && isDigit d then
      some (3 + nameLength rest)
    else none
  | _ => none

def digitsLength (cs : List Char) : Nat := (cs.takeWhile fun c => isDigit c || c == '_').length

theorem decimalLength_eq (cs : List Char) :
    decimalLength cs =
      ((exponentLength? (cs.drop (digitsLength cs))).map (digitsLength cs + ·)).getD
        (nameLength cs) := by
  unfold decimalLength digitsLength
  dsimp only
  generalize cs.drop _ = ds
  match ds with
  | [] => rfl
  | [_] => rfl
  | [_, _] => rfl
  | e :: sign :: d :: rest =>
    simp only [exponentLength?]
    split_ifs
    · exact Nat.add_assoc ..
    · rfl

theorem exponentLength?_append (p : List Char) {x : List Char} (h : Loose x) :
    exponentLength? (p ++ x) = exponentLength? p := by
  -- The first character that is not inert is none of an exponent.
  have ends {a e sign d : Char} {y : List Char} (loose : Loose (a :: y))
      (there : a = e ∨ a = sign ∨ a = d) :
      ((e == 'e' || e == 'E') && (sign == '+' || sign == '-') && isDigit d) = false := by
    have other := loose_cons.mp loose
    refine Bool.eq_false_iff.mpr fun exponent => other ?_
    simp only [Bool.and_eq_true, Bool.or_eq_true, beq_iff_eq] at exponent
    obtain ⟨⟨he, hs⟩, hd⟩ := exponent
    rcases there with rfl | rfl | rfl
    · rcases he with rfl | rfl <;> decide
    · rcases hs with rfl | rfl <;> decide
    · exact isInert_of_isNameCharacter (isNameCharacter_of_isDigit hd)
  match p, x with
  | [], [] => rfl
  | [], [a] => rfl
  | [], [a, b] => rfl
  | [], a :: b :: d :: y => simp [exponentLength?, ends h]
  | [e], [] => rfl
  | [e], [a] => rfl
  | [e], a :: b :: y => simp [exponentLength?, ends h]
  | [e, s], [] => rfl
  | [e, s], a :: y => simp [exponentLength?, ends h]
  | e :: s :: d :: p, x => simp [exponentLength?, nameLength_append _ h]

theorem digitsLength_append (p : List Char) {x : List Char} (h : Loose x) :
    digitsLength (p ++ x) = digitsLength p := by
  have inert (c : Char) (hc : (isDigit c || c == '_') = true) : IsInert c := by
    rcases Bool.or_eq_true_iff.mp hc with digit | under
    · exact isInert_of_isNameCharacter (isNameCharacter_of_isDigit digit)
    · rw [eq_of_beq under]
      decide
  rw [digitsLength, takeWhile_append_loose inert p h]
  rfl

theorem digitsLength_le (cs : List Char) : digitsLength cs ≤ cs.length :=
  (List.takeWhile_sublist _).length_le

theorem decimalLength_append (p : List Char) {x : List Char} (h : Loose x) :
    decimalLength (p ++ x) = decimalLength p := by
  rw [decimalLength_eq, decimalLength_eq, digitsLength_append p h, nameLength_append p h,
    List.drop_append_of_le_length (digitsLength_le p), exponentLength?_append _ h]

theorem decimalLength_le (cs : List Char) : decimalLength cs ≤ cs.length := by
  have exponent : ∀ ds n, exponentLength? ds = some n → n ≤ ds.length := by
    intro ds n h
    unfold exponentLength? at h
    split at h
    · next e s d rest =>
      split_ifs at h
      cases h
      have := nameLength_le rest
      simp only [List.length_cons]
      omega
    · cases h
  rw [decimalLength_eq]
  cases h : exponentLength? (cs.drop (digitsLength cs)) with
  | none => exact nameLength_le cs
  | some n =>
    have bound := exponent _ n h
    have digits := digitsLength_le cs
    rw [List.length_drop] at bound
    change digitsLength cs + n ≤ cs.length
    omega

theorem afterDigit_append (p : List Char) {x : List Char} (h : Loose x) :
    afterDigit (p ++ x) = afterDigit p := by
  have whole := decimalLength_append p h
  unfold afterDigit
  dsimp only
  rw [whole, List.drop_append_of_le_length (decimalLength_le p)]
  generalize p.drop (decimalLength p) = q
  match q, x with
  | [], [] => rfl
  | [], a :: y =>
    have other : a ≠ '.' := by
      rintro rfl
      exact loose_cons.mp h (by decide)
    simp [other]
  | [d], [] => rfl
  | [d], a :: y =>
    by_cases hd : d = '.'
    · subst hd
      have name := not_isNameCharacter_of_loose h
      have digit : isDigit a = false :=
        Bool.eq_false_iff.mpr fun hd => by simp [isNameCharacter_of_isDigit hd] at name
      have other : a ≠ '.' := by
        rintro rfl
        exact loose_cons.mp h (by decide)
      simp [name, digit, other]
    · simp [hd]
  | d :: e :: q, x =>
    by_cases hd : d = '.'
    · subst hd
      have fraction := decimalLength_append (e :: q) h
      rw [List.cons_append] at fraction
      simp [fraction]
    · simp [hd]

theorem afterDigit_le (cs : List Char) : (afterDigit cs).2 ≤ cs.length := by
  have bound := decimalLength_le cs
  unfold afterDigit
  dsimp only
  split
  · next rest he =>
    have length := congrArg List.length he
    rw [List.length_drop, List.length_cons] at length
    split
    · next c tail =>
      have fraction := decimalLength_le (c :: tail)
      rw [List.length_cons] at length fraction
      split_ifs
      all_goals
        dsimp only
        omega
    · dsimp only
      omega
  · exact bound

/-! ### Quotes -/

theorem afterQuote_closed {c : Char} (slash : c ≠ '\\') (quote : c ≠ '\'') (cs : List Char) :
    afterQuote (c :: '\'' :: cs) = (.character, 2) := by
  simp [afterQuote, quote]

theorem afterQuote_open {c : Char} {cs : List Char} (slash : c ≠ '\\')
    (h : cs.head? ≠ some '\'') :
    afterQuote (c :: cs) =
      if isNameCharacter c then (.lifetime, nameLength (c :: cs)) else (.symbol, 0) := by
  rw [afterQuote]
  · rintro rfl
    exact absurd rfl slash
  · rintro ds rfl
    exact h rfl

/-- A single character in quotes, which may be spelled as a space. -/
theorem exists_respace_quoted {c : Char} (slash : c ≠ '\\') (quote : c ≠ '\'') (comma : c ≠ ',') :
    ∃ d, d ≠ '\\' ∧ d ≠ '\'' ∧
      ∀ cs, respace .joined (c :: '\'' :: cs) = d :: '\'' :: respace .joined cs := by
  obtain h | rfl | h | rfl | h := character_cases c
  · refine ⟨' ', by decide, by decide, fun cs => ?_⟩
    rw [respace_blank h]
    rfl
  · exact absurd rfl comma
  · refine ⟨c, slash, quote, fun cs => ?_⟩
    rw [respace_angle h]
    rfl
  · exact ⟨':', by decide, by decide, fun cs => rfl⟩
  · refine ⟨c, slash, quote, fun cs => ?_⟩
    rw [respace_inert h]
    rfl

/-- A literal in single quotes, or a lifetime. -/
theorem exists_lexes_afterQuote {cs : List Char} (kind : (afterQuote cs).1 ≠ .symbol)
    (comma : (afterQuote cs).1 = .character → ',' ∉ cs.take (afterQuote cs).2) :
    ∃ front rest, cs = front ++ rest ∧ Lexes afterQuote (afterQuote cs).1 front rest := by
  cases cs with
  | nil => exact absurd rfl kind
  | cons c cs =>
    by_cases slash : c = '\\'
    · subst slash
      obtain ⟨front, rest, he, scans⟩ :=
        @respaces_quotedLength '\'' (by decide) (by decide) .joined ('\\' :: cs)
      refine ⟨front, rest, he, scans.lexes rfl [] (by simp) ?_⟩
      rw [← he]
      rintro ds (rfl | rfl)
      · exact congrArg (TokenKind.character, ·) (Nat.zero_add _).symm
      · exact congrArg (TokenKind.character, ·) (Nat.zero_add _).symm
    · by_cases closed : cs.head? = some '\''
      · obtain ⟨cs, rfl⟩ := List.head?_eq_some_iff.mp closed
        have quote : c ≠ '\'' := by
          rintro rfl
          exact kind rfl
        rw [afterQuote_closed slash quote] at comma ⊢
        have other : c ≠ ',' := by
          rintro rfl
          exact comma rfl (by simp)
        obtain ⟨d, slash', quote', spelled⟩ := exists_respace_quoted slash quote other
        refine ⟨[c, '\''], cs, rfl, afterQuote_closed slash quote cs, ?_, ?_, fun plain => ?_⟩
        · change afterQuote (respace .joined (c :: '\'' :: cs)) = _
          rw [spelled, spelled, afterQuote_closed slash' quote']
          rfl
        · intro ends
          have none : endsInColon [c, '\''] = false := by
            by_cases colon : c = ':'
            · rw [colon]
              rfl
            · rw [endsInColon_cons colon]
              rfl
          rw [none] at ends
          cases ends
        · cases plain
      · rw [afterQuote_open slash closed] at kind ⊢
        split_ifs at kind ⊢ with name
        · obtain ⟨p, x, he, inert, loose⟩ := exists_inert_append_loose (c :: cs)
          refine ⟨_, _, ?_, lexes_of_inert inert loose (nameLength_le p) ?_⟩
          · rw [← List.append_assoc, List.take_append_drop, he]
          · intro y hy
            cases p with
            | nil =>
              rw [List.nil_append] at he
              rw [← he] at loose
              exact absurd (isInert_of_isNameCharacter name) (loose_cons.mp loose)
            | cons d p =>
              obtain ⟨rfl, rfl⟩ := List.cons.inj he
              have open' : (p ++ y).head? ≠ some '\'' := by
                cases p with
                | nil => exact fun hd => hy _ hd (by decide)
                | cons e p => exact closed
              rw [List.cons_append, afterQuote_open slash open', if_pos name, ← List.cons_append,
                nameLength_append _ hy]
        · exact absurd rfl kind

/-! ### Raw texts -/

theorem takeWhile_replicate_append (n : Nat) (cs : List Char) :
    (List.replicate n '#' ++ '"' :: cs).takeWhile (· == '#') = List.replicate n '#' := by
  induction n with
  | zero => rfl
  | succ n ih =>
    rw [List.replicate_succ, List.cons_append, List.takeWhile_cons_of_pos (by decide), ih]

theorem rawTextLength?_opened (n : Nat) (cs : List Char) :
    rawTextLength? (List.replicate n '#' ++ '"' :: cs) = some (n + 1 + rawLength n cs) := by
  unfold rawTextLength?
  rw [takeWhile_replicate_append]
  simp

theorem rawTextLength?_of_ne {cs : List Char}
    (h : (cs.drop (cs.takeWhile (· == '#')).length).head? ≠ some '"') :
    rawTextLength? cs = none := by
  unfold rawTextLength?
  dsimp only
  split
  · next ds hd => exact absurd (by rw [hd]; rfl) h
  · rfl

theorem rawTextLength?_cases (cs : List Char) :
    rawTextLength? cs = none ∨ ∃ n ds, cs = List.replicate n '#' ++ '"' :: ds := by
  have marks : cs.takeWhile (· == '#') = List.replicate (cs.takeWhile (· == '#')).length '#' :=
    List.eq_replicate_iff.mpr ⟨rfl, fun c hc => by
      simpa using List.all_eq_true.mp (List.all_takeWhile (p := (· == '#')) (l := cs)) c hc⟩
  by_cases quote : (cs.drop (cs.takeWhile (· == '#')).length).head? = some '"'
  · obtain ⟨ds, hd⟩ := List.head?_eq_some_iff.mp quote
    refine .inr ⟨(cs.takeWhile (· == '#')).length, ds, ?_⟩
    have all : cs.take (cs.takeWhile (· == '#')).length = cs.takeWhile (· == '#') :=
      (List.prefix_iff_eq_take.mp (List.takeWhile_prefix _)).symm
    rw [← marks, ← hd, ← all, List.length_take_of_le (List.takeWhile_sublist _).length_le,
      List.take_append_drop]
  · exact .inl (rawTextLength?_of_ne quote)

theorem exists_append_of_loose {q p y ds : List Char} (inert : ∀ c ∈ q, IsInert c)
    (loose : Loose y) (h : p ++ y = q ++ ds) : ∃ p', p = q ++ p' := by
  induction q generalizing p with
  | nil => exact ⟨p, rfl⟩
  | cons c q ih =>
    cases p with
    | nil =>
      rw [List.nil_append] at h
      rw [h] at loose
      exact absurd (inert c (List.mem_cons_self ..)) (loose_cons.mp loose)
    | cons d p =>
      obtain ⟨rfl, rest⟩ := List.cons.inj h
      obtain ⟨p', rfl⟩ := ih (fun d hd => inert d (List.mem_cons_of_mem _ hd)) rest
      exact ⟨p', rfl⟩

theorem isInert_of_mem_opening {n : Nat} {c : Char} (h : c ∈ List.replicate n '#' ++ ['"']) :
    IsInert c := by
  rcases List.mem_append.mp h with hc | hc
  · rw [(List.mem_replicate.mp hc).2]
    decide
  · rw [List.mem_singleton.mp hc]
    decide

/-- A raw text is opened by the inert characters in front. -/
theorem rawTextLength?_append_none {p x y : List Char} (hy : Loose y)
    (h : rawTextLength? (p ++ x) = none) : rawTextLength? (p ++ y) = none := by
  obtain none | ⟨n, ds, he⟩ := rawTextLength?_cases (p ++ y)
  · exact none
  · exfalso
    have split : p ++ y = (List.replicate n '#' ++ ['"']) ++ ds := by
      rw [he, List.append_assoc]
      rfl
    obtain ⟨q, rfl⟩ := exists_append_of_loose (fun _ => isInert_of_mem_opening) hy split
    rw [List.append_assoc, List.append_assoc, List.singleton_append, rawTextLength?_opened] at h
    cases h

/-! ### Letters -/

/-- Behind the letter no literal is opened. -/
structure OpensNone (c : Char) (cs : List Char) : Prop where
  character : c = 'b' → cs.head? ≠ some '\''
  text : c = 'b' ∨ c = 'c' → cs.head? ≠ some '"'
  rawText : c = 'b' ∨ c = 'c' → ∀ ds, cs = 'r' :: ds → rawTextLength? ds = none
  raw : c = 'r' → rawTextLength? cs = none

def wordLength (c : Char) (cs : List Char) : Nat :=
  if c = 'r' ∧ cs.head? = some '#' then 1 + nameLength cs.tail else nameLength cs

theorem openRaw_word {cs rest : List Char} (h : rawTextLength? rest = none) :
    afterLetter.openRaw cs 1 rest = (.word, nameLength cs) := by
  unfold afterLetter.openRaw
  rw [h]
  cases rest with
  | nil => rfl
  | cons d rest =>
    dsimp only
    split <;> rfl

theorem openRaw_name {cs : List Char} (h : rawTextLength? cs = none) :
    afterLetter.openRaw cs 0 cs =
      (.word, if cs.head? = some '#' then 1 + nameLength cs.tail else nameLength cs) := by
  unfold afterLetter.openRaw
  rw [h]
  cases cs with
  | nil => rfl
  | cons d cs =>
    by_cases mark : d = '#'
    · subst mark
      rfl
    · simp [mark]

theorem afterLetter_word {c : Char} {cs : List Char} (h : OpensNone c cs) :
    afterLetter c cs = (.word, wordLength c cs) := by
  unfold afterLetter
  split
  · exact absurd rfl (h.character rfl)
  · exact absurd rfl (h.text (.inl rfl))
  · exact absurd rfl (h.text (.inr rfl))
  · next ds =>
    rw [openRaw_word (h.rawText (.inl rfl) ds rfl)]
    rfl
  · next ds =>
    rw [openRaw_word (h.rawText (.inr rfl) ds rfl)]
    rfl
  · rw [openRaw_name (h.raw rfl)]
    unfold wordLength
    simp
  · next letter _ _ _ _ _ =>
    have other : ¬(c = 'r' ∧ cs.head? = some '#') := fun raw => letter raw.1
    rw [wordLength, if_neg other]

theorem opensNone_cases (c : Char) (cs : List Char) :
    OpensNone c cs ∨ (c = 'b' ∧ ∃ ds, cs = '\'' :: ds) ∨
      ((c = 'b' ∨ c = 'c') ∧ ∃ ds, cs = '"' :: ds) ∨
      ((c = 'b' ∨ c = 'c') ∧ ∃ n ds, cs = 'r' :: (List.replicate n '#' ++ '"' :: ds)) ∨
      (c = 'r' ∧ ∃ n ds, cs = List.replicate n '#' ++ '"' :: ds) := by
  by_cases character : c = 'b' ∧ cs.head? = some '\''
  · exact .inr (.inl ⟨character.1, List.head?_eq_some_iff.mp character.2⟩)
  by_cases text : (c = 'b' ∨ c = 'c') ∧ cs.head? = some '"'
  · exact .inr (.inr (.inl ⟨text.1, List.head?_eq_some_iff.mp text.2⟩))
  by_cases rawText : (c = 'b' ∨ c = 'c') ∧ ∃ n ds, cs = 'r' :: (List.replicate n '#' ++ '"' :: ds)
  · exact .inr (.inr (.inr (.inl rawText)))
  by_cases raw : c = 'r' ∧ ∃ n ds, cs = List.replicate n '#' ++ '"' :: ds
  · exact .inr (.inr (.inr (.inr raw)))
  refine .inl ⟨fun hc hd => character ⟨hc, hd⟩, fun hc hd => text ⟨hc, hd⟩, ?_, ?_⟩
  · rintro hc ds rfl
    obtain none | ⟨n, es, rfl⟩ := rawTextLength?_cases ds
    · exact none
    · exact absurd ⟨hc, n, es, rfl⟩ rawText
  · intro hc
    obtain none | marked := rawTextLength?_cases cs
    · exact none
    · exact absurd ⟨hc, marked⟩ raw

theorem head?_append_loose_ne {p x y : List Char} {d : Char} (inert : IsInert d) (hy : Loose y)
    (h : (p ++ x).head? ≠ some d) : (p ++ y).head? ≠ some d := by
  cases p with
  | nil => exact fun hd => hy d hd inert
  | cons c p => exact h

/-- Whether a literal is opened is read off the inert characters in front. -/
theorem OpensNone.append {c : Char} {p x y : List Char} (hy : Loose y)
    (h : OpensNone c (p ++ x)) : OpensNone c (p ++ y) := by
  refine ⟨fun hc => head?_append_loose_ne (by decide) hy (h.character hc),
    fun hc => head?_append_loose_ne (by decide) hy (h.text hc), ?_,
    fun hc => rawTextLength?_append_none hy (h.raw hc)⟩
  intro hc ds hd
  cases p with
  | nil =>
    rw [List.nil_append] at hd
    rw [hd] at hy
    exact absurd (by decide) (loose_cons.mp hy)
  | cons e p =>
    obtain ⟨rfl, rfl⟩ := List.cons.inj hd
    exact rawTextLength?_append_none hy (h.rawText hc (p ++ x) rfl)

theorem wordLength_append {c : Char} (p : List Char) {y : List Char} (hy : Loose y) :
    wordLength c (p ++ y) = wordLength c p := by
  unfold wordLength
  cases p with
  | nil =>
    have other : y.head? ≠ some '#' := fun hd => hy '#' hd (by decide)
    have none : nameLength y = nameLength [] := nameLength_append [] hy
    simp [other, none]
  | cons e p =>
    have rest : nameLength (p ++ y) = nameLength p := nameLength_append p hy
    have whole : nameLength (e :: (p ++ y)) = nameLength (e :: p) := nameLength_append (e :: p) hy
    simp [rest, whole]

theorem wordLength_le (c : Char) (cs : List Char) : wordLength c cs ≤ cs.length := by
  unfold wordLength
  split_ifs with raw
  · obtain ⟨ds, rfl⟩ := List.head?_eq_some_iff.mp raw.2
    have bound := nameLength_le ds
    simp only [List.tail_cons, List.length_cons]
    omega
  · exact nameLength_le cs

/-- A quote, or what a comment begins with. -/
def isMark (c : Char) : Bool := c == '"' || c == '\'' || c == '/'

/-- A name or a literal that begins with a letter. -/
theorem exists_lexes_afterLetter (c : Char) (cs : List Char) :
    ∃ front rest, cs = front ++ rest ∧ Lexes (afterLetter c) (afterLetter c cs).1 front rest ∧
      ((afterLetter c cs).1.isPlain = false → ∃ m ∈ front, isMark m = true) := by
  obtain none | ⟨rfl, ds, rfl⟩ | ⟨hc, ds, rfl⟩ | ⟨hc, n, ds, rfl⟩ | ⟨rfl, n, ds, rfl⟩ :=
    opensNone_cases c cs
  · obtain ⟨p, x, rfl, inert, loose⟩ := exists_inert_append_loose cs
    rw [afterLetter_word none]
    refine ⟨_, _, ?_, lexes_of_inert inert loose (wordLength_le c p) ?_, fun content => ?_⟩
    · rw [← List.append_assoc, List.take_append_drop]
    · intro y hy
      rw [afterLetter_word (none.append hy), wordLength_append p hy]
    · cases content
  · obtain ⟨front, rest, rfl, scans⟩ :=
      @respaces_quotedLength '\'' (by decide) (by decide) .joined ds
    exact ⟨_, _, rfl, scans.lexes rfl ['\''] (List.all_iff_forall_prop.mp rfl) fun _ _ => rfl,
      fun _ => ⟨'\'', List.mem_cons_self .., rfl⟩⟩
  · obtain ⟨front, rest, rfl, scans⟩ :=
      @respaces_quotedLength '"' (by decide) (by decide) .joined ds
    have opens (es : List Char) :
        afterLetter c ('"' :: es) = (.text, 1 + quotedLength '"' es) := by
      rcases hc with rfl | rfl <;> rfl
    rw [opens]
    exact ⟨_, _, rfl, scans.lexes rfl ['"'] (List.all_iff_forall_prop.mp rfl) fun es _ => opens es,
      fun _ => ⟨'"', List.mem_cons_self .., rfl⟩⟩
  · obtain ⟨front, rest, rfl, scans⟩ := respaces_rawLength n .joined ds
    have inert : ∀ d ∈ 'r' :: (List.replicate n '#' ++ ['"']), IsInert d :=
      List.forall_mem_cons.mpr ⟨by decide, fun _ => isInert_of_mem_opening⟩
    have opens (es : List Char) :
        afterLetter c ('r' :: (List.replicate n '#' ++ '"' :: es)) =
          (.rawText, 1 + (n + 1 + rawLength n es)) := by
      rcases hc with rfl | rfl <;>
        simp only [afterLetter, afterLetter.openRaw, rawTextLength?_opened]
    rw [opens]
    refine ⟨_, rest, ?_, scans.lexes rfl _ inert fun es _ => ?_, fun _ => ⟨'"', ?_, rfl⟩⟩
    · simp
    · simp only [List.cons_append, List.append_assoc, List.nil_append, opens, List.length_cons,
        List.length_append, List.length_replicate, List.length_nil]
      congr 1
      omega
    · simp
  · obtain ⟨front, rest, rfl, scans⟩ := respaces_rawLength n .joined ds
    have inert : ∀ d ∈ List.replicate n '#' ++ ['"'], IsInert d := fun _ => isInert_of_mem_opening
    have opens (es : List Char) :
        afterLetter 'r' (List.replicate n '#' ++ '"' :: es) =
          (.rawText, 0 + (n + 1 + rawLength n es)) := by
      simp only [afterLetter, afterLetter.openRaw, rawTextLength?_opened]
    rw [opens]
    refine ⟨_, rest, ?_, scans.lexes rfl _ inert fun es _ => ?_, fun _ => ⟨'"', ?_, rfl⟩⟩
    · simp
    · simp only [List.append_assoc, List.cons_append, List.nil_append, opens,
        List.length_append, List.length_replicate, List.length_cons, List.length_nil]
      congr 1
      omega
    · simp

end AnchorHarness.Rust
