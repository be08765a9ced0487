import AnchorHarness.Proofs.Console.Verbatim
import AnchorHarness.Workspace.Storing

/-!
# Notices of files

The notice of a file is a coloured word, the path, and for a file that was kept some more words. The
path is not escaped, so that it decides whether the notice can be shown: it can if there is no
closing tag in the path, and it cannot if one comes before all other brackets.
-/

namespace AnchorHarness.Workspace

open Console (Showable afterTag_of_ne afterTag_of_open beginsTag chunks chunks_append chunks_tag
  foldr_consPlain_bracket render showChunks showChunks_plain showChunks_tag showable_append
  showable_between showable_chunks_nil showable_of_unclosed tagName)

/-! ### Marks -/

/-- A word between an opening and a closing tag. -/
structure Mark where
  first : Char
  others : List Char
  word : List Char
  begins : beginsTag first = true
  opens : first ≠ '/'
  opening : '[' ∉ first :: others
  closing : ']' ∉ first :: others
  named : (tagName (first :: others)).isEmpty = false
  filled : word ≠ []
  bracket : '[' ∉ word
  slash : '\\' ∉ word

namespace Mark

def closed (m : Mark) (behind : List Char) : List Char :=
  '[' :: '/' :: (m.first :: m.others ++ ']' :: behind)

def before (m : Mark) (behind : List Char) : List Char :=
  '[' :: m.first :: (m.others ++ ']' :: (m.word ++ m.closed behind))

theorem chunks_before (m : Mark) (behind : List Char) :
    chunks (m.before behind) = .bracket 0 (m.first :: m.others) :: .plain m.word ::
      .bracket 0 ('/' :: m.first :: m.others) :: chunks behind := by
  have opening : '[' ∉ m.others := fun there => m.opening (List.mem_cons_of_mem _ there)
  have closing : ']' ∉ m.others := fun there => m.closing (List.mem_cons_of_mem _ there)
  rw [before, closed, chunks_tag m.begins opening closing, chunks_append m.bracket m.slash,
    chunks_tag (by decide) m.opening m.closing, foldr_consPlain_bracket m.filled]

/-- Behind a mark no tag is open. -/
theorem render_eq (m : Mark) {markup : String} {behind : List Char}
    (split : markup.toList = m.before behind) :
    ∃ position front, render markup =
      (showChunks position [] (chunks behind)).map fun cs => String.ofList (front ++ cs) := by
  have joined (front : List Char) (x : Except Console.MarkupFault (List Char)) :
      (x.map (front ++ ·)).map String.ofList = x.map fun cs => String.ofList (front ++ cs) := by
    cases x <;> rfl
  rw [render, split, m.chunks_before, showChunks_tag (afterTag_of_ne m.opens _ m.others []),
    showChunks_plain, showChunks_tag (afterTag_of_open m.named _ [])]
  exact ⟨_, _, joined _ _⟩

theorem exists_message (m : Mark) {markup : String} {behind : List Char}
    (split : markup.toList = m.before behind) (shown : Showable [] (chunks behind)) :
    ∃ text, Console.message markup = .ok text := by
  obtain ⟨position, front, rendered⟩ := m.render_eq split
  obtain ⟨cs, hc⟩ := shown position
  exact ⟨_, by rw [Console.message, rendered, hc]; rfl⟩

theorem exists_fault (m : Mark) {markup : String} {behind : List Char}
    (split : markup.toList = m.before behind) (unopened : Console.ClosesUnopened behind) :
    ∃ fault, Console.message markup = .error fault := by
  obtain ⟨position, front, rendered⟩ := m.render_eq split
  obtain ⟨fault, failed⟩ := Console.showChunks_of_unopened unopened position
  exact ⟨fault, by rw [Console.message, rendered, failed]; rfl⟩

end Mark

/-! ### Notices -/

def skippingMark : Mark :=
  ⟨'y', "ellow".toList, "Skipping".toList, by decide, by decide, by decide, by decide, by decide,
    by decide, by decide, by decide⟩

def createdMark : Mark :=
  ⟨'g', "reen".toList, "✓ Created".toList, by decide, by decide, by decide, by decide, by decide,
    by decide, by decide, by decide⟩

def updatedMark : Mark :=
  ⟨'g', "reen".toList, "✓ Updated".toList, by decide, by decide, by decide, by decide, by decide,
    by decide, by decide, by decide⟩

def markOf : Creation → Mark
  | .skipped => skippingMark
  | .created => createdMark
  | .updated => updatedMark

/-- What is said behind the path. -/
def lastWords : Creation → List Char
  | .skipped => " [dim](already exists)[/dim]".toList
  | .created => []
  | .updated => []

theorem toList_notice (p : Path) (creation : Creation) :
    (creation.notice p).toList =
      (markOf creation).before (" ".toList ++ (p.text.toList ++ lastWords creation)) := by
  have shift {m : Mark} {word : String} (mark : word.toList = m.before " ".toList)
      (behind : List Char) :
      (word ++ p.text).toList ++ behind = m.before (" ".toList ++ (p.text.toList ++ behind)) := by
    rw [String.toList_append, mark]
    simp [Mark.before, Mark.closed]
  cases creation with
  | skipped =>
    have notice : Creation.skipped.notice p =
        "[yellow]Skipping[/yellow] " ++ p.text ++ " [dim](already exists)[/dim]" := rfl
    rw [notice, String.toList_append]
    exact shift (by decide) _
  | created => exact (List.append_nil _).symm.trans (shift (by decide) [])
  | updated => exact (List.append_nil _).symm.trans (shift (by decide) [])

/-- The last words can be shown whichever tags the path in front of them opens. -/
theorem showable_lastWords (creation : Creation) (openTags : List (List Char)) :
    Showable openTags (chunks (lastWords creation)) := by
  cases creation with
  | created => exact showable_chunks_nil openTags
  | updated => exact showable_chunks_nil openTags
  | skipped =>
    have split : lastWords .skipped =
        " ".toList ++ '[' :: 'd' :: ("im".toList ++ ']' :: ("(already exists)".toList ++
          '[' :: '/' :: ('d' :: "im".toList ++ ']' :: []))) := by decide
    rw [split]
    refine showable_append (by decide) (by decide) ?_
    exact showable_between (by decide) (by decide) (by decide) (by decide) (by decide) (by decide)
      (by decide) (showable_chunks_nil openTags)

theorem endsTag_lastWords (creation : Creation) : Console.EndsTag (lastWords creation) := by
  cases creation with
  | skipped =>
    refine ⟨fun c there => ?_, by decide⟩
    obtain rfl : ' ' = c := Option.some.inj there
    rfl
  | created => exact Console.endsTag_nil
  | updated => exact Console.endsTag_nil

theorem exists_message_notice {p : Path} (unclosed : ¬['[', '/'] <:+: p.text.toList)
    (creation : Creation) : ∃ text, Console.message (creation.notice p) = .ok text := by
  refine (markOf creation).exists_message (toList_notice p creation) ?_
  have plain : Console.leadingBracket? (lastWords creation) = none := by cases creation <;> decide
  exact showable_append (by decide) (by decide)
    (showable_of_unclosed unclosed (endsTag_lastWords creation) plain
      (showable_lastWords creation) [])

theorem exists_fault_notice {p : Path} (unopened : Console.ClosesUnopened p.text.toList)
    (creation : Creation) : ∃ fault, Console.message (creation.notice p) = .error fault :=
  (markOf creation).exists_fault (toList_notice p creation)
    ((unopened.append _).behind (by decide) (by decide))

end AnchorHarness.Workspace
