import AnchorHarness.Proofs.Console.Verbatim

/-!
# What can be drawn

An event can be put on the console if each text in it can be shown. For a table those texts are its
title, its headings and its cells, and the first of them that is faulty is the fault of the table.
-/

namespace AnchorHarness.Console

/-! ### Texts in an event -/

theorem fault?_eq_none_iff {markup : String} :
    fault? markup = none ↔ ∃ text, render markup = .ok text := by
  unfold fault?
  cases render markup <;> simp

theorem Event.fault?_eq_none_iff {e : Event} :
    e.fault? = none ↔ ∀ markup ∈ e.markups, ∃ text, render markup = .ok text := by
  rw [Event.fault?, List.findSome?_eq_none_iff]
  simp only [Console.fault?_eq_none_iff]

theorem mem_markups_table {title markup : String} {columns : List String}
    {rows : List (List String)} (narrow : ∀ row ∈ rows, row.length ≤ columns.length) :
    markup ∈ (Event.table title columns rows).markups ↔
      (∃ cells ∈ columns :: rows, markup ∈ cells) ∨ markup = title := by
  have fits : ∀ cells ∈ columns :: rows, cells.length ≤ columns.length :=
    List.forall_mem_cons.mpr ⟨Nat.le_refl _, narrow⟩
  rw [Event.markups, List.mem_append, List.mem_singleton]
  refine or_congr_left ?_
  simp only [List.mem_flatMap, List.mem_range, List.mem_filterMap]
  constructor
  · rintro ⟨i, -, cells, there, found⟩
    exact ⟨cells, there, List.mem_of_getElem? found⟩
  · rintro ⟨cells, there, inside⟩
    obtain ⟨i, found⟩ := List.mem_iff_getElem?.mp inside
    have short := (List.getElem?_eq_some_iff.mp found).1
    have wide := fits cells there
    exact ⟨i, by omega, cells, there, found⟩

/-- A table can be drawn if its cells can be shown, when its title and its headings can. -/
theorem fault?_table_eq_none_iff {title : String} {columns : List String}
    {rows : List (List String)} (narrow : ∀ row ∈ rows, row.length ≤ columns.length)
    (headed : ∀ markup ∈ title :: columns, ∃ text, render markup = .ok text) :
    (Event.table title columns rows).fault? = none ↔
      ∀ row ∈ rows, ∀ cell ∈ row, ∃ text, render cell = .ok text := by
  rw [Event.fault?_eq_none_iff]
  simp only [mem_markups_table narrow]
  constructor
  · intro drawn row there cell inside
    exact drawn cell (.inl ⟨row, List.mem_cons_of_mem _ there, inside⟩)
  · rintro shown markup (⟨cells, there, inside⟩ | rfl)
    · obtain rfl | there := List.mem_cons.mp there
      · exact headed markup (List.mem_cons_of_mem _ inside)
      · exact shown cells there markup inside
    · exact headed markup (List.mem_cons_self ..)

end AnchorHarness.Console
