import AnchorHarness.Console.Event

/-!
# Plain text on the console

A text without an opening bracket is one chunk of plain text, and it is shown as it is unless the
console drops or widens one of its characters. A text in front of a bracket is plain too as far as it
has no backslashes, which might belong to the bracket.
-/

namespace AnchorHarness.Console

/-! ### Chunks -/

theorem chunks_cons_of_none {c : Char} {rest : List Char} (h : leadingBracket? (c :: rest) = none) :
    chunks (c :: rest) = consPlain c (chunks rest) := by
  rw [chunks]
  split
  · next found =>
    rw [h] at found
    cases found
  · rfl

theorem chunks_cons_of_some {c : Char} {rest body after : List Char} {slashes : Nat}
    (h : leadingBracket? (c :: rest) = some (slashes, body, after)) :
    chunks (c :: rest) = .bracket slashes body :: chunks after := by
  rw [chunks]
  split
  · next found =>
    rw [h] at found
    cases found
    rfl
  · next found =>
    rw [h] at found
    cases found

theorem leadingBracket?_of_not_mem {cs : List Char} (h : '[' ∉ cs) : leadingBracket? cs = none := by
  unfold leadingBracket?
  split
  · next behind hd =>
    have there : '[' ∈ cs.dropWhile (· = '\\') := by simp [hd]
    exact absurd ((List.dropWhile_sublist _).mem there) h
  · rfl

theorem chunks_of_not_mem {cs : List Char} (h : '[' ∉ cs) (nonempty : cs ≠ []) :
    chunks cs = [.plain cs] := by
  induction cs with
  | nil => contradiction
  | cons c rest ih =>
    have behind : '[' ∉ rest := fun there => h (List.mem_cons_of_mem c there)
    rw [chunks_cons_of_none (leadingBracket?_of_not_mem h)]
    cases rest with
    | nil =>
      rw [chunks]
      rfl
    | cons d rest =>
      rw [ih behind (List.cons_ne_nil d rest)]
      rfl

/-- Text in front of others is plain where it has neither brackets nor backslashes. -/
theorem chunks_append {front rest : List Char} (bracket : '[' ∉ front) (slash : '\\' ∉ front) :
    chunks (front ++ rest) = front.foldr consPlain (chunks rest) := by
  induction front with
  | nil => rfl
  | cons c front ih =>
    simp only [List.mem_cons, not_or] at bracket slash
    -- Backslashes would be passed over in the search for a bracket.
    have plain : leadingBracket? (c :: (front ++ rest)) = none := by
      have stays : (c :: (front ++ rest)).dropWhile (· = '\\') = c :: (front ++ rest) := by
        simp [Ne.symm slash.1]
      unfold leadingBracket?
      rw [stays]
      split
      · next behind he => exact absurd (List.cons.inj he).1.symm bracket.1
      · rfl
    rw [List.cons_append, chunks_cons_of_none plain, ih bracket.2 slash.2]
    rfl

theorem foldr_consPlain_bracket {front : List Char} (nonempty : front ≠ []) (slashes : Nat)
    (body : List Char) (rest : List Chunk) :
    front.foldr consPlain (.bracket slashes body :: rest) =
      .plain front :: .bracket slashes body :: rest := by
  induction front with
  | nil => contradiction
  | cons c front ih =>
    cases front with
    | nil => rfl
    | cons d front =>
      rw [List.foldr_cons, ih (List.cons_ne_nil d front)]
      rfl

/-! ### Tags -/

theorem upToClosing_append {body : List Char} (opening : '[' ∉ body) (closing : ']' ∉ body)
    (rest : List Char) : upToClosing (body ++ ']' :: rest) = some (body, rest) := by
  induction body with
  | nil => rfl
  | cons c body ih =>
    simp only [List.mem_cons, not_or] at opening closing
    rw [List.cons_append, upToClosing, if_neg (Ne.symm closing.1), if_neg (Ne.symm opening.1),
      ih opening.2 closing.2]
    rfl

theorem chunks_tag {c : Char} {body : List Char} (begins : beginsTag c = true)
    (opening : '[' ∉ body) (closing : ']' ∉ body) (rest : List Char) :
    chunks ('[' :: c :: (body ++ ']' :: rest)) = .bracket 0 (c :: body) :: chunks rest := by
  refine chunks_cons_of_some ?_
  have stays : ('[' :: c :: (body ++ ']' :: rest)).dropWhile (· = '\\') =
      '[' :: c :: (body ++ ']' :: rest) := by simp
  unfold leadingBracket?
  rw [stays]
  simp [tagBody?, begins, upToClosing_append opening closing]

/-! ### Characters -/

/-- A character that the console shows as it is whatever stands around it. The colon is not counted
in, as a name between colons may be the code of a pictograph. -/
def IsPlain (c : Char) : Prop :=
  c ≠ '[' ∧ c ≠ ':' ∧ c ≠ '\t' ∧ c.toNat ∉ [7, 8, 11, 12, 13]

instance (c : Char) : Decidable (IsPlain c) := inferInstanceAs (Decidable (_ ∧ _))

theorem dropSlashes_of_not_mem {cs : List Char} (h : '[' ∉ cs) : dropSlashes cs = cs := by
  fun_induction dropSlashes cs with
  | case1 cs ih => simp at h
  | case2 c cs _ ih => rw [ih fun there => h (List.mem_cons_of_mem c there)]
  | case3 => rfl

theorem shown_of_plain {cs : List Char} (h : ∀ c ∈ cs, IsPlain c) : shown cs = cs := by
  refine List.filter_eq_self.mpr fun c hc => ?_
  simpa [List.contains_eq_mem] using (h c hc).2.2.2

theorem expandTabs_of_not_mem {cs : List Char} (h : '\t' ∉ cs) (column : Nat) :
    expandTabs column cs = cs := by
  induction cs generalizing column with
  | nil => rfl
  | cons c cs ih =>
    simp only [List.mem_cons, not_or] at h
    rw [expandTabs, if_neg (Ne.symm h.1), ih h.2]

/-! ### Showing -/

theorem showChunks_plain (position : Nat) (openTags : List (List Char)) (text : List Char)
    (rest : List Chunk) :
    showChunks position openTags (.plain text :: rest) =
      (showChunks (position + text.length) openTags rest).map (shown (dropSlashes text) ++ ·) := by
  rw [showChunks]
  cases showChunks (position + text.length) openTags rest <;> rfl

theorem showChunks_tag {position : Nat} {openTags inner : List (List Char)} {body : List Char}
    (tag : afterTag position body openTags = .ok inner) (rest : List Chunk) :
    showChunks position openTags (.bracket 0 body :: rest) =
      showChunks (position + body.length + 2) inner rest := by
  rw [showChunks]
  simp only [Nat.add_zero, tag]
  -- A tag without backslashes in front puts nothing before what comes behind it.
  change (showChunks (position + body.length + 2) inner rest >>= fun cs => .ok ([] ++ cs)) = _
  cases showChunks (position + body.length + 2) inner rest <;> rfl

theorem showChunks_of_fault {position : Nat} {openTags : List (List Char)} {body : List Char}
    {fault : MarkupFault} (tag : afterTag position body openTags = .error fault)
    (rest : List Chunk) :
    showChunks position openTags (.bracket 0 body :: rest) = .error fault := by
  rw [showChunks]
  simp only [Nat.add_zero, tag]
  rfl

theorem afterTag_of_ne {c : Char} (h : c ≠ '/') (position : Nat) (body : List Char)
    (openTags : List (List Char)) :
    afterTag position (c :: body) openTags = .ok (tagName (c :: body) :: openTags) := by
  unfold afterTag
  split
  · next name he => exact absurd (List.cons.inj he).1 h
  · rfl

theorem afterTag_of_unmatched {name : List Char} (nonempty : (tagName name).isEmpty = false)
    (position : Nat) :
    afterTag position ('/' :: name) [] =
      .error (.unmatched (String.ofList ('/' :: name)) position) := by
  simp [afterTag, nonempty]

/-! ### Warnings -/

/-- The mark of a warning is a word between tags. -/
theorem chunks_mark (text : List Char) :
    chunks ("[yellow]Warning:[/yellow]".toList ++ text) =
      .bracket 0 "yellow".toList :: .plain "Warning:".toList :: .bracket 0 "/yellow".toList ::
        chunks text := by
  have closing : chunks ('[' :: '/' :: ("yellow".toList ++ ']' :: text)) =
      .bracket 0 "/yellow".toList :: chunks text :=
    chunks_tag (by decide) (by decide) (by decide) text
  calc chunks ("[yellow]Warning:[/yellow]".toList ++ text)
      = chunks ('[' :: 'y' :: ("ellow".toList ++ ']' :: ("Warning:".toList ++
          '[' :: '/' :: ("yellow".toList ++ ']' :: text)))) := rfl
    _ = .bracket 0 "yellow".toList :: "Warning:".toList.foldr consPlain
          (.bracket 0 "/yellow".toList :: chunks text) := by
        rw [chunks_tag (by decide) (by decide) (by decide),
          chunks_append (by decide) (by decide), closing]
        rfl
    _ = _ := by rw [foldr_consPlain_bracket (by decide)]

/-- Behind the mark of a warning no tag is open. -/
theorem render_warning (text : String) :
    render ("[yellow]Warning:[/yellow]" ++ text) =
      (showChunks 25 [] (chunks text.toList)).map fun cs =>
        String.ofList ("Warning:".toList ++ cs) := by
  have opens : afterTag 0 "yellow".toList [] = .ok ["yellow".toList] := rfl
  have closes (position : Nat) :
      afterTag position "/yellow".toList ["yellow".toList] = .ok [] := rfl
  rw [render, String.toList_append, chunks_mark, showChunks_tag opens, showChunks_plain,
    showChunks_tag (closes _)]
  change Except.map String.ofList (Except.map ("Warning:".toList ++ ·)
    (showChunks 25 [] (chunks text.toList))) = _
  cases showChunks 25 [] (chunks text.toList) <;> rfl

theorem message_warning {text : String} (nonempty : text.toList ≠ [])
    (plain : ∀ c ∈ text.toList, IsPlain c) :
    message ("[yellow]Warning:[/yellow]" ++ text) = .ok ("Warning:" ++ text ++ "\n") := by
  have bracket : '[' ∉ text.toList := fun there => (plain _ there).1 rfl
  have tab : '\t' ∉ text.toList := fun there => (plain _ there).2.2.1 rfl
  have still : '\t' ∉ ("Warning:" ++ text).toList := by
    rw [String.toList_append, List.mem_append, not_or]
    exact ⟨by decide, tab⟩
  have rendered : showChunks 25 [] (chunks text.toList) = .ok text.toList := by
    rw [chunks_of_not_mem bracket nonempty, showChunks_plain, dropSlashes_of_not_mem bracket,
      shown_of_plain plain]
    exact congrArg Except.ok (List.append_nil _)
  rw [message, render_warning, rendered]
  simp only [Except.map, String.ofList_append, String.ofList_toList, expandTabs_of_not_mem still]

end AnchorHarness.Console
