import AnchorHarness.Proofs.Console.Plain
import AnchorHarness.Proofs.Fallible
import Mathlib.Tactic.SplitIfs

/-!
# Escaped text on the console

Escaping gives every bracket that could be a tag an odd number of backslashes, with which it is
shown. The brackets are still cut at the same places then, whatever comes behind the text, except
that backslashes at its end may join those of the next bracket. So a message can be shown whatever
text is put into it, as long as this is escaped.
-/

namespace AnchorHarness.Console

def escapedText (cs : List Char) : List Char := (chunks cs).flatMap Chunk.escaped

theorem toList_escape (s : String) :
    ∃ n, (escape s).toList = escapedText s.toList ++ List.replicate n '\\' := by
  have same : (escape s).toList = closeSlash (escapedText s.toList) := String.toList_ofList
  rw [same, closeSlash]
  split
  · exact ⟨0, (List.append_nil _).symm⟩
  · exact ⟨1, rfl⟩
  · exact ⟨0, (List.append_nil _).symm⟩

/-! ### Brackets -/

def IsTag (body : List Char) : Prop :=
  ∃ c inner, body = c :: inner ∧ beginsTag c = true ∧ '[' ∉ inner ∧ ']' ∉ inner

theorem not_mem_of_upToClosing {cs body rest : List Char} (h : upToClosing cs = some (body, rest)) :
    '[' ∉ body ∧ ']' ∉ body := by
  induction cs generalizing body with
  | nil => cases h
  | cons c cs ih =>
    rw [upToClosing] at h
    split_ifs at h with closing opening
    · cases h
      exact ⟨List.not_mem_nil, List.not_mem_nil⟩
    · obtain ⟨⟨inner, after⟩, found, he⟩ := Option.map_eq_some_iff.mp h
      cases he
      obtain ⟨left, right⟩ := ih found
      simp only [List.mem_cons, not_or]
      exact ⟨⟨Ne.symm opening, left⟩, Ne.symm closing, right⟩

theorem isTag_of_leadingBracket? {cs body rest : List Char} {slashes : Nat}
    (h : leadingBracket? cs = some (slashes, body, rest)) : IsTag body := by
  unfold leadingBracket? at h
  split at h
  · next behind _ =>
    obtain ⟨⟨inner, after⟩, found, he⟩ := Option.map_eq_some_iff.mp h
    cases he
    cases behind with
    | nil => cases found
    | cons c behind =>
      rw [tagBody?] at found
      split_ifs at found with begins
      obtain ⟨⟨inside, after⟩, closed, he⟩ := Option.map_eq_some_iff.mp found
      cases he
      obtain ⟨opening, closing⟩ := not_mem_of_upToClosing closed
      exact ⟨c, inside, rfl, begins, opening, closing⟩
  · cases h

theorem leadingBracket?_slash (cs : List Char) :
    leadingBracket? ('\\' :: cs) = (leadingBracket? cs).map fun p => (p.1 + 1, p.2) := by
  unfold leadingBracket?
  rw [List.dropWhile_cons_of_pos (by decide), List.takeWhile_cons_of_pos (by decide)]
  split
  · rw [Option.map_map]
    rfl
  · rfl

theorem leadingBracket?_of_ne {c : Char} (other : c ≠ '\\') (rest : List Char) :
    leadingBracket? (c :: rest) =
      if c = '[' then (tagBody? rest).map fun p => (0, p.1, p.2) else none := by
  unfold leadingBracket?
  rw [List.dropWhile_cons_of_neg (by simpa using other),
    List.takeWhile_cons_of_neg (by simpa using other)]
  split_ifs with opening
  · subst opening
    rfl
  · split
    · next behind he => exact absurd (List.cons.inj he).1 opening
    · rfl

theorem leadingBracket?_bracketText {body : List Char} (tag : IsTag body) (slashes : Nat)
    (rest : List Char) :
    leadingBracket? (bracketText slashes body ++ rest) = some (slashes, body, rest) := by
  induction slashes with
  | zero =>
    obtain ⟨c, inner, rfl, begins, opening, closing⟩ := tag
    simp [bracketText, leadingBracket?, tagBody?, begins, upToClosing_append opening closing]
  | succ slashes ih =>
    have front : bracketText (slashes + 1) body ++ rest =
        '\\' :: (bracketText slashes body ++ rest) := rfl
    rw [front, leadingBracket?_slash, ih]
    rfl

theorem chunks_bracketText {body : List Char} (tag : IsTag body) (slashes : Nat)
    (rest : List Char) :
    chunks (bracketText slashes body ++ rest) = .bracket slashes body :: chunks rest := by
  have found := leadingBracket?_bracketText tag slashes rest
  cases slashes with
  | zero => exact chunks_cons_of_some found
  | succ slashes => exact chunks_cons_of_some found

theorem upToClosing_slashes (n : Nat) (rest : List Char) :
    upToClosing (List.replicate n '\\' ++ '[' :: rest) = none := by
  induction n with
  | zero => rfl
  | succ n ih =>
    rw [List.replicate_succ, List.cons_append, upToClosing, if_neg (by decide), if_neg (by decide),
      ih]
    rfl

/-! ### Escaping -/

theorem escapedText_nil : escapedText [] = [] := by
  rw [escapedText, chunks]
  rfl

theorem escapedText_of_some {c : Char} {rest body after : List Char} {slashes : Nat}
    (h : leadingBracket? (c :: rest) = some (slashes, body, after)) :
    escapedText (c :: rest) = bracketText (2 * slashes + 1) body ++ escapedText after := by
  rw [escapedText, chunks_cons_of_some h]
  rfl

theorem escapedText_of_none {c : Char} {rest : List Char}
    (h : leadingBracket? (c :: rest) = none) :
    escapedText (c :: rest) = c :: escapedText rest := by
  have front (cs : List Chunk) :
      (consPlain c cs).flatMap Chunk.escaped = c :: cs.flatMap Chunk.escaped := by
    unfold consPlain
    split <;> rfl
  rw [escapedText, chunks_cons_of_none h, front]
  rfl

theorem escapedText_slashes (n : Nat) :
    escapedText (List.replicate n '\\') = List.replicate n '\\' := by
  induction n with
  | zero => exact escapedText_nil
  | succ n ih =>
    have none : leadingBracket? ('\\' :: List.replicate n '\\') = none := by
      refine leadingBracket?_of_not_mem ?_
      simp [List.mem_replicate]
    rw [List.replicate_succ, escapedText_of_none none, ih]

/-- A bracket that is open in front of the text is not closed by it. -/
structure EndsTag (cs : List Char) : Prop where
  begins : ∀ c ∈ cs.head?, beginsTag c = false
  closes : upToClosing cs = none

theorem upToClosing_escapedText {cs tail : List Char} (h : upToClosing cs = none)
    (ends : upToClosing tail = none) : upToClosing (escapedText cs ++ tail) = none := by
  fun_induction chunks cs with
  | case1 =>
    rw [escapedText_nil]
    exact ends
  | case2 c rest slashes body after found ih =>
    rw [escapedText_of_some found, bracketText, List.append_assoc, List.append_assoc]
    exact upToClosing_slashes _ _
  | case3 c rest absent ih =>
    rw [escapedText_of_none absent, List.cons_append, upToClosing]
    rw [upToClosing] at h
    split_ifs at h ⊢
    · rfl
    · rw [ih (Option.map_eq_none_iff.mp h)]
      rfl

theorem tagBody?_escapedText {cs tail : List Char} (h : tagBody? cs = none) (ends : EndsTag tail) :
    tagBody? (escapedText cs ++ tail) = none := by
  cases cs with
  | nil =>
    rw [escapedText_nil, List.nil_append]
    cases tail with
    | nil => rfl
    | cons d tail => rw [tagBody?, if_neg (by simp [ends.begins d rfl])]
  | cons c rest =>
    cases found : leadingBracket? (c :: rest) with
    | some p =>
      rw [escapedText_of_some found]
      rfl
    | none =>
      rw [escapedText_of_none found, List.cons_append, tagBody?]
      rw [tagBody?] at h
      split_ifs at h ⊢
      · rw [upToClosing_escapedText (Option.map_eq_none_iff.mp h) ends.closes]
        rfl
      · rfl

/-- Where no bracket stands, none stands in the escaped text, unless backslashes at the end of the
text belong to a bracket behind it. -/
theorem leadingBracket?_escapedText {c : Char} {rest tail : List Char}
    (h : leadingBracket? (c :: rest) = none) (ends : EndsTag tail) :
    leadingBracket? (c :: (escapedText rest ++ tail)) = none ∨
      ∃ n, c :: rest = List.replicate n '\\' := by
  induction rest generalizing c with
  | nil =>
    by_cases slash : c = '\\'
    · exact .inr ⟨1, slash ▸ rfl⟩
    · left
      rw [leadingBracket?_of_ne slash, tagBody?_escapedText rfl ends]
      exact ite_self none
  | cons d rest ih =>
    by_cases slash : c = '\\'
    · subst slash
      rw [leadingBracket?_slash, Option.map_eq_none_iff] at h
      obtain absent | ⟨n, same⟩ := ih h
      · left
        rw [escapedText_of_none h, leadingBracket?_slash, List.cons_append, absent]
        rfl
      · exact .inr ⟨n + 1, by rw [same, List.replicate_succ]⟩
    · left
      rw [leadingBracket?_of_ne slash] at h ⊢
      split_ifs at h ⊢
      · rw [tagBody?_escapedText (Option.map_eq_none_iff.mp h) ends]
        rfl
      · rfl

/-! ### Showing -/

/-- The chunks can be shown wherever they begin. -/
def Showable (openTags : List (List Char)) (cs : List Chunk) : Prop :=
  ∀ position, ∃ text, showChunks position openTags cs = .ok text

variable {openTags : List (List Char)}

theorem showable_plain {cs : List Chunk} (h : Showable openTags cs) (text : List Char) :
    Showable openTags (.plain text :: cs) := by
  intro position
  obtain ⟨behind, hb⟩ := h (position + text.length)
  exact ⟨_, by rw [showChunks_plain, hb]; rfl⟩

theorem showable_consPlain {cs : List Chunk} (h : Showable openTags cs) (c : Char) :
    Showable openTags (consPlain c cs) := by
  unfold consPlain
  split
  · next text rest =>
    intro position
    obtain ⟨all, ha⟩ := h (position + 1)
    rw [showChunks_plain, Fallible.map_eq_ok] at ha
    obtain ⟨behind, hb, -⟩ := ha
    have next : position + (c :: text).length = position + 1 + text.length := by
      rw [List.length_cons]
      omega
    exact ⟨_, by rw [showChunks_plain, next, hb]; rfl⟩
  · exact showable_plain h [c]

theorem showable_append {front rest : List Char} (bracket : '[' ∉ front) (slash : '\\' ∉ front)
    (h : Showable openTags (chunks rest)) : Showable openTags (chunks (front ++ rest)) := by
  rw [chunks_append bracket slash]
  clear bracket slash
  induction front with
  | nil => exact h
  | cons c front ih => exact showable_consPlain ih c

/-- A bracket with an odd number of backslashes is shown. -/
theorem showable_odd {cs : List Chunk} (h : Showable openTags cs) {slashes : Nat}
    (odd : slashes % 2 = 1) (body : List Char) :
    Showable openTags (.bracket slashes body :: cs) := by
  intro position
  obtain ⟨behind, hb⟩ := h (position + slashes + body.length + 2)
  rw [showChunks]
  simp only [odd, if_true, hb]
  exact ⟨_, rfl⟩

/-- A bracket that could be a tag is shown, or the tags that are open then are others. -/
theorem showable_bracket {cs : List Chunk} {body : List Char} (inner : List (List Char))
    (tag : ∀ position, afterTag position body openTags = .ok inner) (h : Showable openTags cs)
    (h' : Showable inner cs) (slashes : Nat) :
    Showable openTags (.bracket slashes body :: cs) := by
  by_cases odd : slashes % 2 = 1
  · exact showable_odd h odd body
  · intro position
    obtain ⟨behind, hb⟩ := h' (position + slashes + body.length + 2)
    rw [showChunks]
    simp only [odd, if_false, tag]
    change ∃ text, (showChunks (position + slashes + body.length + 2) inner cs >>= fun cs =>
      Except.ok (List.replicate (slashes / 2) '\\' ++ cs)) = .ok text
    rw [hb]
    exact ⟨_, rfl⟩

/-- Escaped text can be shown in front of any text that can be, with backslashes or without. -/
theorem showable_escapedText {tail : List Char} (ends : EndsTag tail)
    (h : ∀ n, Showable openTags (chunks (List.replicate n '\\' ++ tail))) (cs : List Char) :
    Showable openTags (chunks (escapedText cs ++ tail)) := by
  fun_induction chunks cs with
  | case1 =>
    rw [escapedText_nil]
    exact h 0
  | case2 c rest slashes body after found ih =>
    rw [escapedText_of_some found, List.append_assoc,
      chunks_bracketText (isTag_of_leadingBracket? found)]
    exact showable_odd ih (by omega) body
  | case3 c rest absent ih =>
    obtain plain | ⟨n, same⟩ := leadingBracket?_escapedText absent ends
    · rw [escapedText_of_none absent, List.cons_append, chunks_cons_of_none plain]
      exact showable_consPlain ih c
    · rw [same, escapedText_slashes]
      exact h n

/-! ### Messages -/

theorem exists_message_of_showable {markup : String}
    (h : Showable [] (chunks markup.toList)) : ∃ text, message markup = .ok text := by
  obtain ⟨text, ht⟩ := h 0
  exact ⟨_, by rw [message, render, ht]; rfl⟩

theorem showable_tag {c : Char} {body : List Char} (inner : List (List Char))
    (begins : beginsTag c = true) (opening : '[' ∉ body) (closing : ']' ∉ body)
    (tag : ∀ position, afterTag position (c :: body) openTags = .ok inner) {rest : List Char}
    (h : Showable inner (chunks rest)) :
    Showable openTags (chunks ('[' :: c :: (body ++ ']' :: rest))) := by
  rw [chunks_tag begins opening closing]
  intro position
  obtain ⟨text, ht⟩ := h (position + (c :: body).length + 2)
  exact ⟨text, by rw [showChunks_tag (tag position), ht]⟩

theorem showable_nil : Showable openTags [] := fun _ => ⟨[], rfl⟩

theorem endsTag_slashes (n : Nat) : EndsTag (List.replicate n '\\') := by
  refine ⟨?_, ?_⟩
  · cases n with
    | zero => simp
    | succ n => simp [List.replicate_succ, beginsTag]
  · induction n with
    | zero => rfl
    | succ n ih => simp [List.replicate_succ, upToClosing, ih]

theorem endsTag_bracketText (n : Nat) (body rest : List Char) :
    EndsTag (bracketText n body ++ rest) := by
  refine ⟨?_, ?_⟩
  · cases n with
    | zero => simp [bracketText, beginsTag]
    | succ n => simp [bracketText, List.replicate_succ, beginsTag]
  · rw [bracketText, List.append_assoc]
    exact upToClosing_slashes n _

/-- An error is shown whatever its text is. -/
theorem exists_message_error (text : String) :
    ∃ shown, message ("[red]Error: " ++ escape text ++ "[/red]") = .ok shown := by
  obtain ⟨n, escaped⟩ := toList_escape text
  have closing : IsTag "/red".toList := ⟨'/', "red".toList, by decide⟩
  have split : ("[red]Error: " ++ escape text ++ "[/red]").toList =
      '[' :: 'r' :: ("ed".toList ++ ']' :: ("Error: ".toList ++
        (escapedText text.toList ++ (bracketText n "/red".toList ++ [])))) := by
    simp [escaped, bracketText]
  have ends (m : Nat) : Showable ["red".toList]
      (chunks (List.replicate m '\\' ++ (bracketText n "/red".toList ++ []))) := by
    have joined : List.replicate m '\\' ++ (bracketText n "/red".toList ++ []) =
        bracketText (m + n) "/red".toList ++ [] := by
      simp [bracketText, ← List.append_assoc, List.replicate_append_replicate]
    rw [joined, chunks_bracketText closing, chunks]
    exact showable_bracket [] (fun _ => rfl) showable_nil showable_nil _
  refine exists_message_of_showable ?_
  rw [split]
  refine showable_tag ["red".toList] (by decide) (by decide) (by decide) (fun _ => rfl) ?_
  exact showable_append (by decide) (by decide)
    (showable_escapedText (endsTag_bracketText n _ _) ends text.toList)

/-- A warning is shown whatever its text is. -/
theorem exists_message_warning (text : String) :
    ∃ shown, message ("[yellow]Warning:[/yellow] " ++ escape text) = .ok shown := by
  obtain ⟨n, escaped⟩ := toList_escape text
  have split : ("[yellow]Warning:[/yellow] " ++ escape text).toList =
      '[' :: 'y' :: ("ellow".toList ++ ']' :: ("Warning:".toList ++
        '[' :: '/' :: ("yellow".toList ++ ']' :: (" ".toList ++
          (escapedText text.toList ++ List.replicate n '\\'))))) := by
    simp [escaped]
  have ends (m : Nat) :
      Showable [] (chunks (List.replicate m '\\' ++ List.replicate n '\\')) := by
    have joined : List.replicate m '\\' ++ List.replicate n '\\' =
        List.replicate (m + n) '\\' := by simp
    rw [joined]
    cases hk : m + n with
    | zero =>
      rw [List.replicate_zero, chunks]
      exact showable_nil
    | succ k =>
      rw [chunks_of_not_mem (by simp [List.mem_replicate]) (by simp)]
      exact showable_plain showable_nil _
  refine exists_message_of_showable ?_
  rw [split]
  refine showable_tag ["yellow".toList] (by decide) (by decide) (by decide)
    (fun _ => rfl) ?_
  refine showable_append (by decide) (by decide) ?_
  refine showable_tag [] (by decide) (by decide) (by decide) (fun _ => rfl) ?_
  exact showable_append (by decide) (by decide)
    (showable_escapedText (endsTag_slashes n) ends text.toList)

end AnchorHarness.Console
