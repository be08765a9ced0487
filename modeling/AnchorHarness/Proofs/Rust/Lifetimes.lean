import AnchorHarness.Proofs.Rust.WrittenTypes

/-!
# Lifetimes in a type

The lifetimes of a text are those among its tokens. A closing angle bracket behind a text adds none
and hides none, whatever the text: it either is a token of its own or falls into a comment or a
literal that is open at the end. So a type has the lifetimes of its argument if it is the argument's
text in brackets.
-/

namespace AnchorHarness.Rust

def lifetimesOf (cs : List Char) : List (List Char) :=
  ((tokenize cs).filter fun t => t.kind = .lifetime).map Token.text

/-- The lifetimes in a text, in order, with their quotes. -/
def lifetimesIn (text : String) : List String := (lifetimesOf text.toList).map String.ofList

/-! ### An angle bracket behind a text -/

/-- Of two scans, one of a text and one of the text with a sign behind it, the second ends where the
first does, or both take in the text. -/
def SameEnd (size n n' : Nat) : Prop := n' = n ∧ n ≤ size ∨ size ≤ n ∧ size ≤ n'

theorem SameEnd.add {size n n' : Nat} (h : SameEnd size n n') (k : Nat) :
    SameEnd (size + k) (n + k) (n' + k) := by
  unfold SameEnd at h ⊢
  omega

theorem SameEnd.one_add {size n n' : Nat} (h : SameEnd size n n') :
    SameEnd (size + 1) (1 + n) (1 + n') := by
  rw [Nat.add_comm 1 n, Nat.add_comm 1 n']
  exact h.add 1

theorem quotedLength_angle {quote : Char} (other : quote ≠ '>') (cs : List Char) :
    SameEnd cs.length (quotedLength quote cs) (quotedLength quote (cs ++ ['>'])) := by
  fun_induction quotedLength quote cs with
  | case1 => exact .inr ⟨Nat.le_refl _, Nat.zero_le _⟩
  | case2 =>
    have whole : 1 ≤ quotedLength quote ['\\', '>'] := Nat.succ_pos _
    exact .inr ⟨Nat.le_refl _, whole⟩
  | case3 d cs ih => exact ih.add 2
  | case4 cs single pair =>
    have slash : quote ≠ '\\' := by
      rintro rfl
      cases cs with
      | nil => exact single rfl rfl
      | cons d ds => exact pair d ds rfl rfl
    rw [List.cons_append, quotedLength_quote slash]
    exact .inl ⟨rfl, Nat.succ_pos _⟩
  | case5 c cs single pair open' ih =>
    have slash : c ≠ '\\' := by
      rintro rfl
      cases cs with
      | nil => exact single rfl rfl
      | cons d ds => exact pair d ds rfl rfl
    rw [List.cons_append, quotedLength_of_ne slash open']
    exact ih.add 1

theorem loose_angle : Loose ['>'] := loose_cons.mpr (by decide)

theorem rawLength_angle (hashes : Nat) (cs : List Char) :
    SameEnd cs.length (rawLength hashes cs) (rawLength hashes (cs ++ ['>'])) := by
  induction cs with
  | nil => exact .inr ⟨Nat.le_refl _, Nat.zero_le _⟩
  | cons c cs ih =>
    have marks := take_eq_replicate_iff (c := '#') (by decide) loose_angle cs hashes
    by_cases closes : c = '"' ∧ cs.take hashes = List.replicate hashes '#'
    · have room := congrArg List.length closes.2
      rw [List.length_take, List.length_replicate] at room
      rw [List.cons_append, rawLength, if_pos closes, rawLength, if_pos ⟨closes.1, marks.mpr closes.2⟩]
      refine .inl ⟨rfl, ?_⟩
      rw [List.length_cons]
      omega
    · have open' : ¬(c = '"' ∧ (cs ++ ['>']).take hashes = List.replicate hashes '#') :=
        fun there => closes ⟨there.1, marks.mp there.2⟩
      rw [List.cons_append, rawLength_of_not closes, rawLength_of_not open']
      exact ih.add 1

theorem head?_append_angle {d : Char} (other : d ≠ '>') (cs : List Char) :
    (cs ++ ['>']).head? = some d ↔ cs.head? = some d := by
  cases cs with
  | nil => simp [Ne.symm other]
  | cons c cs => rfl

theorem blockLength_angle (depth : Nat) (cs : List Char) :
    SameEnd cs.length (blockLength depth cs) (blockLength depth (cs ++ ['>'])) := by
  fun_induction blockLength depth cs with
  | case1 depth => exact .inr ⟨Nat.zero_le _, Nat.zero_le _⟩
  | case2 depth cs ih =>
    rw [List.cons_append, List.cons_append, blockLength]
    exact ih.add 2
  | case3 cs =>
    rw [List.cons_append, List.cons_append, blockLength]
    exact .inl ⟨rfl, by simp⟩
  | case4 depth cs ih =>
    rw [List.cons_append, List.cons_append, blockLength]
    exact ih.add 2
  | case5 depth c cs opens closesAll closes ih =>
    have opens' : ¬(c = '/' ∧ (cs ++ ['>']).head? = some '*') := by
      rintro ⟨rfl, hd⟩
      obtain ⟨ds, rfl⟩ := List.head?_eq_some_iff.mp ((head?_append_angle (by decide) cs).mp hd)
      exact opens ds rfl rfl
    have closes' : ¬(c = '*' ∧ (cs ++ ['>']).head? = some '/') := by
      rintro ⟨rfl, hd⟩
      obtain ⟨ds, rfl⟩ := List.head?_eq_some_iff.mp ((head?_append_angle (by decide) cs).mp hd)
      cases depth with
      | zero => exact closesAll ds rfl rfl rfl
      | succ depth => exact closes depth ds rfl rfl rfl
    rw [List.cons_append, blockLength_of_not opens' closes']
    exact ih.add 1

theorem takeWhile_angle (cs : List Char) :
    SameEnd cs.length (cs.takeWhile (· != '\n')).length
      ((cs ++ ['>']).takeWhile (· != '\n')).length := by
  induction cs with
  | nil => exact .inr ⟨Nat.le_refl _, Nat.zero_le _⟩
  | cons c cs ih =>
    by_cases ends : c = '\n'
    · subst ends
      exact .inl ⟨rfl, Nat.zero_le _⟩
    · rw [List.cons_append, List.takeWhile_cons_of_pos (by simpa using ends),
        List.takeWhile_cons_of_pos (by simpa using ends)]
      exact ih.add 1

/-! ### Lexemes -/

/-- Two lexemes are of one kind and end alike, and a lifetime is the same in both. -/
structure SameLexeme (size : Nat) (l l' : TokenKind × Nat) : Prop where
  kind : l'.1 = l.1
  ends : SameEnd size l.2 l'.2
  lifetime : l.1 = .lifetime → l'.2 = l.2 ∧ l.2 ≤ size

theorem SameLexeme.of_eq {size : Nat} {l l' : TokenKind × Nat} (same : l' = l)
    (bound : l.2 ≤ size) : SameLexeme size l l' := by
  subst same
  exact ⟨rfl, .inl ⟨rfl, bound⟩, fun _ => ⟨rfl, bound⟩⟩

theorem SameLexeme.of_scan {kind : TokenKind} {size n n' : Nat} (other : kind ≠ .lifetime)
    (ends : SameEnd size n n') : SameLexeme size (kind, n) (kind, n') :=
  ⟨rfl, ends, fun h => absurd h other⟩

theorem afterQuote_angle (cs : List Char) :
    SameLexeme cs.length (afterQuote cs) (afterQuote (cs ++ ['>'])) := by
  cases cs with
  | nil => exact .of_eq rfl (Nat.zero_le _)
  | cons c cs =>
    rw [List.cons_append]
    by_cases slash : c = '\\'
    · subst slash
      exact .of_scan (by decide) (quotedLength_angle (by decide) ('\\' :: cs))
    · by_cases closed : cs.head? = some '\''
      · obtain ⟨cs, rfl⟩ := List.head?_eq_some_iff.mp closed
        by_cases quote : c = '\''
        · subst quote
          exact .of_eq rfl (Nat.zero_le _)
        · rw [List.cons_append, afterQuote_closed slash quote, afterQuote_closed slash quote]
          exact .of_eq rfl (by simp)
      · have open' : (cs ++ ['>']).head? ≠ some '\'' := fun hd =>
          closed ((head?_append_angle (by decide) cs).mp hd)
        rw [afterQuote_open slash closed, afterQuote_open slash open', ← List.cons_append,
          nameLength_append (c :: cs) loose_angle]
        refine .of_eq rfl ?_
        split
        · exact nameLength_le _
        · exact Nat.zero_le _

theorem afterLetter_angle (c : Char) (cs : List Char) :
    SameLexeme cs.length (afterLetter c cs) (afterLetter c (cs ++ ['>'])) := by
  obtain none | ⟨rfl, ds, rfl⟩ | ⟨hc, ds, rfl⟩ | ⟨hc, n, ds, rfl⟩ | ⟨rfl, n, ds, rfl⟩ :=
    opensNone_cases c cs
  · have none' : OpensNone c (cs ++ ['>']) :=
      OpensNone.append (x := []) loose_angle (by rwa [List.append_nil])
    rw [afterLetter_word none, afterLetter_word none', wordLength_append cs loose_angle]
    exact .of_eq rfl (wordLength_le c cs)
  · have other : '\'' ≠ '>' := by decide
    exact .of_scan (by decide) (quotedLength_angle other ds).one_add
  · have opens (es : List Char) :
        afterLetter c ('"' :: es) = (.text, 1 + quotedLength '"' es) := by
      rcases hc with rfl | rfl <;> rfl
    have other : '"' ≠ '>' := by decide
    rw [List.cons_append, opens, opens]
    exact .of_scan (by decide) (quotedLength_angle other ds).one_add
  · have opens (es : List Char) :
        afterLetter c ('r' :: (List.replicate n '#' ++ '"' :: es)) =
          (.rawText, rawLength n es + (n + 2)) := by
      have count : 1 + (n + 1 + rawLength n es) = rawLength n es + (n + 2) := by omega
      rw [← count]
      rcases hc with rfl | rfl <;>
        simp only [afterLetter, afterLetter.openRaw, rawTextLength?_opened]
    have size : ('r' :: (List.replicate n '#' ++ '"' :: ds)).length = ds.length + (n + 2) := by
      simp only [List.length_cons, List.length_append, List.length_replicate]
      omega
    rw [size, List.cons_append, List.append_assoc, List.cons_append, opens, opens]
    exact .of_scan (by decide) ((rawLength_angle n ds).add (n + 2))
  · have opens (es : List Char) :
        afterLetter 'r' (List.replicate n '#' ++ '"' :: es) =
          (.rawText, rawLength n es + (n + 1)) := by
      have count : 0 + (n + 1 + rawLength n es) = rawLength n es + (n + 1) := by omega
      rw [← count]
      simp only [afterLetter, afterLetter.openRaw, rawTextLength?_opened]
    have size : (List.replicate n '#' ++ '"' :: ds).length = ds.length + (n + 1) := by
      simp only [List.length_append, List.length_replicate, List.length_cons]
      omega
    rw [size, List.append_assoc, List.cons_append, opens, opens]
    exact .of_scan (by decide) ((rawLength_angle n ds).add (n + 1))

theorem slash_angle (cs : List Char) :
    SameLexeme cs.length (lexeme '/' cs) (lexeme '/' (cs ++ ['>'])) := by
  by_cases line : cs.head? = some '/'
  · obtain ⟨cs, rfl⟩ := List.head?_eq_some_iff.mp line
    exact .of_scan (by decide) (takeWhile_angle ('/' :: cs))
  by_cases block : cs.head? = some '*'
  · obtain ⟨cs, rfl⟩ := List.head?_eq_some_iff.mp block
    exact .of_scan (by decide) (blockLength_angle 0 cs).one_add
  · have line' := mt (head?_append_angle (by decide) cs).mp line
    have block' := mt (head?_append_angle (by decide) cs).mp block
    rw [lexeme_slash line block, lexeme_slash line' block']
    exact .of_eq rfl (Nat.zero_le _)

theorem colon_angle (cs : List Char) :
    SameLexeme cs.length (lexeme ':' cs) (lexeme ':' (cs ++ ['>'])) := by
  by_cases pair : cs.head? = some ':'
  · obtain ⟨cs, rfl⟩ := List.head?_eq_some_iff.mp pair
    exact .of_eq rfl (Nat.succ_pos _)
  · have pair' := mt (head?_append_angle (by decide) cs).mp pair
    rw [lexeme_colon pair, lexeme_colon pair']
    exact .of_eq rfl (Nat.zero_le _)

/-- At the end of the text the bracket makes an arrow, which is a symbol like the sign alone. -/
theorem arrow_angle {c : Char} (hc : c = '-' ∨ c = '=') (cs : List Char) :
    SameLexeme cs.length (lexeme c cs) (lexeme c (cs ++ ['>'])) := by
  have read (ds : List Char) : lexeme c ('>' :: ds) = (.symbol, 1) := by
    rcases hc with rfl | rfl <;> rfl
  cases cs with
  | nil =>
    rw [lexeme_arrow hc (by simp), List.nil_append, read]
    exact .of_scan (by decide) (.inr ⟨Nat.le_refl _, Nat.zero_le _⟩)
  | cons d cs =>
    rw [List.cons_append]
    by_cases arrow : d = '>'
    · subst arrow
      rw [read, read]
      exact .of_eq rfl (Nat.succ_pos _)
    · have other (ds : List Char) : (d :: ds).head? ≠ some '>' := fun hd => arrow (Option.some.inj hd)
      rw [lexeme_arrow hc (other cs), lexeme_arrow hc (other _)]
      exact .of_eq rfl (Nat.zero_le _)

/-- The bracket changes neither the kind nor, before the end, the length of a token. -/
theorem lexeme_append_angle (c : Char) (cs : List Char) :
    SameLexeme cs.length (lexeme c cs) (lexeme c (cs ++ ['>'])) := by
  by_cases slash : c = '/'
  · exact slash ▸ slash_angle cs
  by_cases text : c = '"'
  · subst text
    exact .of_scan (by decide) (quotedLength_angle (by decide) cs)
  by_cases quote : c = '\''
  · exact quote ▸ afterQuote_angle cs
  by_cases colon : c = ':'
  · exact colon ▸ colon_angle cs
  by_cases sign : c = '-' ∨ c = '='
  · exact arrow_angle sign cs
  have plain : c ∉ ['/', '"', '\'', ':', '-', '='] := by
    simp only [List.mem_cons, List.not_mem_nil, or_false, not_or]
    exact ⟨slash, text, quote, colon, fun h => sign (.inl h), fun h => sign (.inr h)⟩
  rw [lexeme_plain plain, lexeme_plain plain]
  split
  · rw [afterDigit_append cs loose_angle]
    exact .of_eq rfl (afterDigit_le cs)
  · split
    · exact afterLetter_angle c cs
    · exact .of_eq rfl (Nat.zero_le _)

/-! ### Lifetimes -/

theorem lifetimesOf_gap {g : List Char} (h : ∀ c ∈ g, isGap c = true) : lifetimesOf g = [] := by
  rw [lifetimesOf, tokenize_gap h]
  rfl

theorem lifetimesOf_nil : lifetimesOf [] = [] := lifetimesOf_gap (by simp)

theorem lifetimesOf_append {g r : List Char} {c : Char} (hg : ∀ d ∈ g, isGap d = true)
    (hc : isGap c = false) :
    lifetimesOf (g ++ c :: r) =
      (if (lexeme c r).1 = .lifetime then [c :: r.take (lexeme c r).2] else []) ++
        lifetimesOf (r.drop (lexeme c r).2) := by
  rw [lifetimesOf, tokenize_append hg hc, List.filter_cons]
  split <;> split <;> simp_all [lifetimesOf]

theorem lifetimesOf_angle : lifetimesOf ['>'] = [] := by
  rw [← List.nil_append ['>'], lifetimesOf_append (by simp) (by decide)]
  exact lifetimesOf_nil

/-- A closing angle bracket behind a text does not change the lifetimes in it. -/
theorem lifetimesOf_append_angle (cs : List Char) : lifetimesOf (cs ++ ['>']) = lifetimesOf cs := by
  induction hn : cs.length using Nat.strongRecOn generalizing cs with
  | ind n ih =>
    obtain all | ⟨g, c, r, rfl, hg, hc⟩ := exists_gap_append cs
    · rw [lifetimesOf_append all (by decide), lifetimesOf_gap all]
      exact lifetimesOf_nil
    · have same := lexeme_append_angle c r
      rw [List.append_assoc, List.cons_append, lifetimesOf_append hg hc, lifetimesOf_append hg hc,
        same.kind]
      have rests : lifetimesOf ((r ++ ['>']).drop (lexeme c (r ++ ['>'])).2) =
          lifetimesOf (r.drop (lexeme c r).2) := by
        obtain ⟨he, bound⟩ | ⟨whole, whole'⟩ := same.ends
        · have shorter : (r.drop (lexeme c r).2).length < n := by
            rw [List.length_append, List.length_cons] at hn
            rw [List.length_drop]
            omega
          rw [he, List.drop_append_of_le_length bound]
          exact ih _ shorter _ rfl
        · rw [List.drop_eq_nil_of_le whole, lifetimesOf_nil, List.drop_append,
            List.drop_eq_nil_of_le whole', List.nil_append]
          cases (lexeme c (r ++ ['>'])).2 - r.length with
          | zero => exact lifetimesOf_angle
          | succ k =>
            rw [List.drop_succ_cons, List.drop_nil]
            exact lifetimesOf_nil
      rw [rests]
      by_cases hk : (lexeme c r).1 = .lifetime
      · obtain ⟨he, bound⟩ := same.lifetime hk
        rw [he, List.take_append_of_le_length bound]
      · rw [if_neg hk, if_neg hk]

/-- A token that is no lifetime adds none. -/
theorem lifetimesOf_token {kind : TokenKind} {c : Char} {front rest : List Char}
    (hc : isGap c = false) (read : lexeme c (front ++ rest) = (kind, front.length))
    (other : kind ≠ .lifetime) :
    lifetimesOf (c :: (front ++ rest)) = lifetimesOf rest := by
  rw [← List.nil_append (c :: _), lifetimesOf_append (by simp) hc, read, if_neg other,
    List.nil_append, List.drop_left]

theorem lifetimesOf_blank (cs : List Char) : lifetimesOf (' ' :: cs) = lifetimesOf cs := by
  have blank : isGap ' ' = true := by decide
  obtain all | ⟨g, c, r, rfl, hg, hc⟩ := exists_gap_append cs
  · rw [lifetimesOf_gap all, lifetimesOf_gap (List.forall_mem_cons.mpr ⟨blank, all⟩)]
  · rw [← List.cons_append, lifetimesOf_append (List.forall_mem_cons.mpr ⟨blank, hg⟩) hc,
      lifetimesOf_append hg hc]

theorem lifetimesIn_option (text : String) :
    lifetimesIn ("Option<" ++ text ++ ">") = lifetimesIn text := by
  have name : IsName ('O' :: "ption".toList) :=
    ⟨⟨'O', "ption".toList, rfl, by decide⟩, List.all_eq_true.mp rfl⟩
  have word (rest : List Char) :
      lexeme 'O' ("ption".toList ++ '<' :: rest) = (.word, "ption".toList.length) :=
    lexeme_of_name name (endsName_of_loose (loose_cons.mpr (by decide)))
  have chars : ("Option<" ++ text ++ ">").toList =
      'O' :: ("ption".toList ++ '<' :: (text.toList ++ ['>'])) := by
    rw [String.toList_append, String.toList_append]
    rfl
  have sign (rest : List Char) : lexeme '<' ([] ++ rest) = (.symbol, 0) := lexeme_angle (.inl rfl) _
  rw [lifetimesIn, chars, lifetimesOf_token (by decide) (word _) (by decide),
    ← List.nil_append (text.toList ++ _), lifetimesOf_token (by decide) (sign _) (by decide),
    lifetimesOf_append_angle]
  rfl

theorem lifetimesIn_borrowed (text : String) :
    lifetimesIn ("&'info " ++ text) = "'info" :: lifetimesIn text := by
  have name : IsName "info".toList :=
    ⟨⟨'i', "nfo".toList, rfl, by decide⟩, List.all_eq_true.mp rfl⟩
  have lifetime : lexeme '\'' ("info".toList ++ ' ' :: text.toList) =
      (.lifetime, "info".toList.length) :=
    lexeme_of_lifetime name (endsName_of_loose (loose_cons.mpr (by decide)))
  have chars : ("&'info " ++ text).toList =
      '&' :: ([] ++ '\'' :: ("info".toList ++ ' ' :: text.toList)) := by
    rw [String.toList_append]
    rfl
  have sign (rest : List Char) : lexeme '&' ([] ++ rest) = (.symbol, 0) := rfl
  rw [lifetimesIn, chars, lifetimesOf_token (by decide) (sign _) (by decide),
    ← List.nil_append ('\'' :: _), lifetimesOf_append (by simp) (by decide), lifetime, if_pos rfl,
    List.take_left, List.drop_left, lifetimesOf_blank]
  rfl

end AnchorHarness.Rust
