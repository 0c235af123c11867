import IronStack.Lib.Machine
import IronStack.Text.CsvParser

/-!
# Cells that are accessed

A table whose rows are all of one length is to stay one. Whether a column is there is
looked up in the number of rows: in a table with more rows than columns a cell beyond its
row is taken to be there. And a new row gets as many cells as the column needs, though
the other rows may have more.
-/

namespace IronStack.Proof.CsvTable

open IronStack Lib CsvParser

/-- All rows have the same number of cells. -/
def Rectangular (t : CsvContents) : Prop := ∃ columns, ∀ line ∈ t, line.length = columns

/-- An access to a cell, through which something may be written to it. -/
structure Access where
  row : Nat
  column : Nat
  written : Option Text

/-- An access to a table, from which nothing is known once a cell beyond it was accessed. -/
def step : Option CsvContents → Access → Option (Option CsvContents)
  | none, _ => none
  | some t, i =>
      let t' := access t i.row i.column
      some ((cell t' i.row i.column).map fun _ => (i.written.map (write t' i.row i.column)).getD t')

/-- What an access is to do, before anything is written. -/
structure Extends (t t' : CsvContents) (row column : Nat) : Prop where
  inside : ∃ text, cell t' row column = some text
  rectangular : Rectangular t'
  kept : ∀ i j text, cell t i j = some text → cell t' i j = some text
  fresh : ∀ i j text, cell t i j = none → cell t' i j = some text → text = []

/-- It does. -/
def Good (a : Transition (Option CsvContents) Access) : Prop :=
  ∃ t, a.source = some t ∧ Extends t (access t a.input.row a.input.column) a.input.row a.input.column

/-- A column that is less than the number of rows is one of the table, if the row is; and a
new row has no fewer columns than the others. -/
structure Within (t : CsvContents) (row column : Nat) : Prop where
  present : row < t.length → column < t.length → ∀ line ∈ t, column < line.length
  newRow : t.length ≤ row → ∀ line ∈ t, line.length ≤ column + 1

/-! ## One access -/

section Extend

variable {t : CsvContents} {row column : Nat}

theorem extend_old {i : Nat} {line : List Text} (h : t[i]? = some line) :
    (extend t row column)[i]? = some (line ++ List.replicate (column + 1 - line.length) []) := by
  obtain ⟨hlt, heq⟩ := List.getElem?_eq_some_iff.mp h
  rw [extend, List.getElem?_map, List.getElem?_append_left hlt, h, Option.map_some]

theorem extend_new {i : Nat} (hold : t.length ≤ i) (hrow : i ≤ row) :
    (extend t row column)[i]? = some (List.replicate (column + 1) []) := by
  rw [extend, List.getElem?_map, List.getElem?_append_right hold,
    List.getElem?_replicate_of_lt (by omega), Option.map_some]
  rfl

theorem length_extend : (extend t row column).length = max t.length (row + 1) := by
  rw [extend, List.length_map, List.length_append, List.length_replicate]
  omega

theorem cell_eq_some {i j : Nat} {text : Text} :
    cell t i j = some text ↔ ∃ line, t[i]? = some line ∧ (line)[j]? = some text := Option.bind_eq_some_iff

/-- A row that is filled up has what it had, and empty cells. -/
theorem getElem?_filled {line : List Text} {j : Nat} {text : Text}
    (h : (line ++ List.replicate (column + 1 - line.length) [])[j]? = some text) :
    (line)[j]? = some text ∨ (line)[j]? = none ∧ text = [] := by
  by_cases hlt : j < line.length
  · rw [List.getElem?_append_left hlt] at h
    exact .inl h
  · rw [List.getElem?_append_right (by omega)] at h
    refine .inr ⟨List.getElem?_eq_none (by omega), ?_⟩
    exact List.eq_of_mem_replicate (List.mem_of_getElem? h)

/-- **Extending a table** keeps its cells, has the one that is accessed, and adds empty ones. -/
theorem extend_spec :
    (∃ text, cell (extend t row column) row column = some text) ∧
      (∀ i j text, cell t i j = some text → cell (extend t row column) i j = some text) ∧
      ∀ i j text, cell t i j = none → cell (extend t row column) i j = some text → text = [] := by
  refine ⟨?_, ?_, ?_⟩
  · cases hold : t[row]? with
    | some old =>
        have hlt : column < (old ++ List.replicate (column + 1 - old.length) []).length := by
          rw [List.length_append, List.length_replicate]
          omega
        exact ⟨_, cell_eq_some.mpr ⟨_, extend_old hold, List.getElem?_eq_getElem hlt⟩⟩
    | none =>
        have hge : t.length ≤ row := List.getElem?_eq_none_iff.mp hold
        exact ⟨_, cell_eq_some.mpr ⟨_, extend_new hge (Nat.le_refl row),
          List.getElem?_replicate_of_lt (Nat.lt_succ_self column)⟩⟩
  · intro i j text h
    obtain ⟨line, hline, htext⟩ := cell_eq_some.mp h
    refine cell_eq_some.mpr ⟨_, extend_old hline, ?_⟩
    obtain ⟨hlt, _⟩ := List.getElem?_eq_some_iff.mp htext
    rw [List.getElem?_append_left hlt]
    exact htext
  · intro i j text hnone h
    obtain ⟨line, hline, htext⟩ := cell_eq_some.mp h
    cases hold : t[i]? with
    | some old =>
        rw [extend_old hold] at hline
        cases hline
        rcases getElem?_filled htext with hold' | ⟨_, hempty⟩
        · rw [cell, hold, Option.bind_some, hold'] at hnone
          cases hnone
        · exact hempty
    | none =>
        have hge : t.length ≤ i := List.getElem?_eq_none_iff.mp hold
        obtain ⟨hlt, _⟩ := List.getElem?_eq_some_iff.mp hline
        rw [length_extend] at hlt
        rw [extend_new hge (by omega)] at hline
        cases hline
        exact List.eq_of_mem_replicate (List.mem_of_getElem? htext)

/-- The rows of a table that is extended. -/
theorem mem_extend {line : List Text} : line ∈ extend t row column ↔
    (∃ old ∈ t, line = old ++ List.replicate (column + 1 - old.length) []) ∨
      t.length ≤ row ∧ line = List.replicate (column + 1) [] := by
  rw [extend, List.mem_map]
  refine ⟨?_, ?_⟩
  · rintro ⟨old, hold, rfl⟩
    rcases List.mem_append.mp hold with hold | hold
    · exact .inl ⟨old, hold, rfl⟩
    · obtain ⟨hne, rfl⟩ := List.mem_replicate.mp hold
      exact .inr ⟨by omega, rfl⟩
  · rintro (⟨old, hold, rfl⟩ | ⟨hge, rfl⟩)
    · exact ⟨old, List.mem_append_left _ hold, rfl⟩
    · exact ⟨[], List.mem_append_right _ (List.mem_replicate.mpr ⟨by omega, rfl⟩), rfl⟩

/-- **A table that is extended stays rectangular** if a new row has no fewer cells. -/
theorem rectangular_extend_iff (h : Rectangular t) :
    Rectangular (extend t row column) ↔ (t.length ≤ row → ∀ line ∈ t, line.length ≤ column + 1) := by
  obtain ⟨columns, hcolumns⟩ := h
  have hfilled : ∀ old : List Text,
      (old ++ List.replicate (column + 1 - old.length) []).length = max old.length (column + 1) := by
    intro old
    rw [List.length_append, List.length_replicate]
    omega
  refine ⟨?_, ?_⟩
  · rintro ⟨columns', hextended⟩ hrow line hline
    have hnew := hextended _ (mem_extend.mpr (.inr ⟨hrow, rfl⟩))
    have hold := hextended _ (mem_extend.mpr (.inl ⟨line, hline, rfl⟩))
    rw [List.length_replicate] at hnew
    rw [hfilled] at hold
    omega
  · intro hnew
    cases ht : t with
    | nil =>
        refine ⟨column + 1, ?_⟩
        intro line hline
        rcases mem_extend.mp hline with ⟨old, hold, rfl⟩ | ⟨_, rfl⟩
        · cases hold
        · exact List.length_replicate
    | cons first others =>
        have hfirst : first ∈ t := by
          rw [ht]
          exact List.mem_cons_self
        refine ⟨max columns (column + 1), ?_⟩
        rw [← ht]
        intro line hline
        rcases mem_extend.mp hline with ⟨old, hold, rfl⟩ | ⟨hrow, rfl⟩
        · rw [hfilled, hcolumns old hold]
        · have hle := hnew hrow first hfirst
          rw [hcolumns first hfirst] at hle
          rw [List.length_replicate]
          omega

end Extend

/-- **An access does what it is to do** exactly within these bounds. -/
theorem extends_iff {t : CsvContents} (h : Rectangular t) (row column : Nat) :
    Extends t (access t row column) row column ↔ Within t row column := by
  by_cases hpresent : row < t.length ∧ column < t.length
  · have hsame : access t row column = t := if_pos hpresent
    obtain ⟨columns, hcolumns⟩ := h
    have hrow : t[row]? = some t[row] := List.getElem?_eq_getElem hpresent.1
    rw [hsame]
    refine ⟨?_, ?_⟩
    · intro hgood
      obtain ⟨text, htext⟩ := hgood.inside
      obtain ⟨line, hline, htext⟩ := cell_eq_some.mp htext
      obtain ⟨hlt, _⟩ := List.getElem?_eq_some_iff.mp htext
      rw [hcolumns line (List.mem_of_getElem? hline)] at hlt
      refine ⟨?_, ?_⟩
      · intro _ _ line' hline'
        rw [hcolumns line' hline']
        exact hlt
      · intro hge
        omega
    · intro hwithin
      have hlt := hwithin.present hpresent.1 hpresent.2 _ (List.getElem_mem hpresent.1)
      refine ⟨?_, ⟨columns, hcolumns⟩, ?_, ?_⟩
      · exact ⟨_, cell_eq_some.mpr ⟨_, hrow, List.getElem?_eq_getElem hlt⟩⟩
      · intro i j text htext
        exact htext
      · intro i j text hnone htext
        rw [hnone] at htext
        cases htext
  · have hextend : access t row column = extend t row column := if_neg hpresent
    obtain ⟨hinside, hkept, hfresh⟩ := @extend_spec t row column
    rw [hextend]
    refine ⟨?_, ?_⟩
    · intro hgood
      refine ⟨?_, (rectangular_extend_iff h).mp hgood.rectangular⟩
      intro hrow hcolumn
      exact absurd ⟨hrow, hcolumn⟩ hpresent
    · intro hwithin
      exact ⟨hinside, (rectangular_extend_iff h).mpr hwithin.newRow, hkept, hfresh⟩

/-! ## Any number of them -/

/-- Writing to a cell leaves the numbers of cells as they are. -/
theorem rectangular_write {t : CsvContents} (h : Rectangular t) (row column : Nat) (text : Text) :
    Rectangular (write t row column text) := by
  obtain ⟨columns, hcolumns⟩ := h
  refine ⟨columns, ?_⟩
  intro line hline
  obtain ⟨i, hline⟩ := List.mem_iff_getElem?.mp hline
  rw [write, List.getElem?_modify] at hline
  obtain ⟨old, hold, rfl⟩ := Option.map_eq_some_iff.mp hline
  have hlength := hcolumns old (List.mem_of_getElem? hold)
  split
  · rw [List.length_set, hlength]
  · exact hlength

/-- The table that a run has come to is a rectangular one. -/
def Keeps : Option CsvContents → Prop
  | none => False
  | some t => Rectangular t

/-- A guard of the accesses, as one of the steps. -/
def StepWithin (u : Option CsvContents) (i : Access) : Prop := ∀ t, u = some t → Within t i.row i.column

/-- A good access leads to a rectangular table, also when its cell is written to. -/
theorem keeps_of_good {u : Option CsvContents} {i : Access} {v : Option CsvContents}
    (h : step u i = some v) (hgood : Good ⟨u, i, v⟩) : Keeps v := by
  obtain ⟨t, rfl, hextends⟩ := hgood
  obtain ⟨text, htext⟩ := hextends.inside
  rw [step, htext, Option.map_some] at h
  cases h
  cases i.written with
  | none => exact hextends.rectangular
  | some written => exact rectangular_write hextends.rectangular i.row i.column written

theorem good_iff {u : Option CsvContents} {i : Access} {v : Option CsvContents} (hu : Keeps u) :
    Good ⟨u, i, v⟩ ↔ StepWithin u i := by
  cases u with
  | none => cases hu
  | some t =>
      refine ⟨?_, ?_⟩
      · intro ⟨_, ht, hextends⟩ t' ht'
        cases ht
        cases ht'
        exact (extends_iff hu _ _).mp hextends
      · intro hwithin
        exact ⟨t, rfl, (extends_iff hu _ _).mpr (hwithin t rfl)⟩

/--
**Any accesses, one after the other, to a table that is rectangular**, all get a cell of it
and keep it rectangular and its cells as they were, exactly if each has a column that is
one of the table when it is less than the number of rows, in a row that is there, and is at
least its last one in a row that is not.
-/
theorem extends_run_iff {t : CsvContents} {ts : List (Transition (Option CsvContents) Access)}
    {v : Option CsvContents} (h : Rectangular t) (hr : Run step (some t) ts v) :
    (∀ a ∈ ts, Good a) ↔ ∀ a ∈ ts, ∀ t', a.source = some t' → Within t' a.input.row a.input.column := by
  have hexact : (∀ a ∈ ts, Good a) ↔ ∀ a ∈ ts, StepWithin a.source a.input :=
    hr.forall_good_iff (fun _ => True) Keeps trivial h (fun _ _ _ _ _ => trivial)
      (fun _ _ _ _ _ hs hgood => keeps_of_good hs hgood) fun _ _ _ _ hu _ => good_iff hu
  exact hexact

/-- The first cell of an empty table is written, and then the one behind it. -/
def firstRow : List Access := [⟨0, 0, some ['a']⟩, ⟨0, 1, some ['b']⟩]

theorem firstRow_extends : ∃ ts, Run step (some []) ts (some [[['a'], ['b']]]) ∧ ∀ a ∈ ts, Good a := by
  have hr := Run.of_record (show record step (some []) firstRow = some (_, _) from rfl)
  refine ⟨_, hr, (extends_run_iff ⟨0, fun _ h => absurd h List.not_mem_nil⟩ hr).mpr ?_⟩
  intro a ha t ht
  rcases List.mem_cons.mp ha with rfl | ha
  · cases ht
    exact ⟨fun h => absurd h (Nat.not_lt_zero 0), fun _ _ h => absurd h List.not_mem_nil⟩
  · obtain rfl := List.mem_singleton.mp ha
    cases ht
    exact ⟨nofun, nofun⟩

/-- In a table of two rows and one column, the second column of a row is taken to be there. -/
theorem tallTable_exceeded :
    ¬ ∀ (t : CsvContents) (ts : List (Transition (Option CsvContents) Access))
      (v : Option CsvContents), Rectangular t → Run step (some t) ts v → ∀ a ∈ ts, Good a := by
  intro h
  have hr : Run step (some [[[]], [[]]]) [] (some [[[]], [[]]]) := .nil
  have hrect : Rectangular [[[]], [[]]] := by
    refine ⟨1, ?_⟩
    intro line hline
    simp only [List.mem_cons, List.not_mem_nil, or_false, or_self] at hline
    rw [hline, List.length_singleton]
  obtain ⟨t, ht, hextends⟩ := h _ _ _ hrect (hr.snoc (i := ⟨0, 1, none⟩) rfl) _
    (List.mem_append_right _ List.mem_cons_self)
  cases ht
  obtain ⟨text, htext⟩ := hextends.inside
  cases htext

end IronStack.Proof.CsvTable
