import IronStack.Text.CsvParser

/-!
# Tables that are saved and loaded

A cell with quotes is written with quotes around it, and each of its own twice. A comma
in a cell is written as it is, and is taken for the end of the cell. The loop that undoes
the doubling leaves a single quote of any number of them in a row. And a line that is
empty, as that of a row with one empty cell, is passed over.
-/

namespace IronStack.Proof.CsvFile

open IronStack Lib CsvParser

/-- A rectangular table, without line breaks in its cells. -/
structure Table where
  rows : CsvContents
  columns : Nat
  rectangular : ∀ row ∈ rows, row.length = columns
  plain : ∀ row ∈ rows, ∀ cell ∈ row, '\r' ∉ cell ∧ '\n' ∉ cell

/-- Two quotes follow one another. -/
def QuotesInARow (cell : Text) : Prop := ['"', '"'] <:+: cell

/-- A row has something to write, and no cell of it has a comma, or two quotes in a row. -/
structure Kept (row : List Text) : Prop where
  written : row ≠ [] ∧ row ≠ [[]]
  noComma : ∀ cell ∈ row, ',' ∉ cell
  noQuotes : ∀ cell ∈ row, ¬QuotesInARow cell

/-! ## Quotes -/

/-- A text with one quote for each run of them. -/
def squeeze : Text → Text
  | [] => []
  | c :: rest => if c = '"' ∧ rest.head? = some '"' then squeeze rest else c :: squeeze rest

theorem length_squeeze_le (w : Text) : (squeeze w).length ≤ w.length := by
  induction w with
  | nil => exact Nat.le_refl _
  | cons c rest ih =>
      rw [squeeze, List.length_cons]
      split
      · omega
      · rw [List.length_cons]
        omega

/-- A pair of quotes at the front. -/
theorem quotes_prefix_iff {c : Char} {rest : Text} :
    ['"', '"'] <+: c :: rest ↔ c = '"' ∧ rest.head? = some '"' := by
  cases rest with
  | nil => simp [List.cons_prefix_cons]
  | cons d rest => simp [List.cons_prefix_cons, eq_comm]

theorem squeeze_eq_self_iff {w : Text} : squeeze w = w ↔ ¬QuotesInARow w := by
  induction w with
  | nil => simp [squeeze, QuotesInARow]
  | cons c rest ih =>
      rw [QuotesInARow, List.infix_cons_iff, quotes_prefix_iff, squeeze]
      by_cases hpair : c = '"' ∧ rest.head? = some '"'
      · rw [if_pos hpair]
        refine ⟨?_, fun h => absurd (.inl hpair) h⟩
        intro heq
        have hlen := length_squeeze_le rest
        rw [heq, List.length_cons] at hlen
        omega
      · rw [if_neg hpair, or_iff_right hpair]
        refine Iff.trans ?_ ih
        exact ⟨fun h => (List.cons.inj h).2, fun h => by rw [h]⟩

theorem squeeze_of_notMem {w : Text} (h : '"' ∉ w) : squeeze w = w := by
  refine squeeze_eq_self_iff.mpr ?_
  intro hquotes
  exact h (hquotes.subset List.mem_cons_self)

/-- Erasing one of a pair does not change what is left in the end. -/
theorem eraseQuote_some {w w' : Text} (h : eraseQuote w = some w') :
    squeeze w' = squeeze w ∧ w'.length < w.length ∧ w'.head? = w.head? := by
  induction w using eraseQuote.induct generalizing w' with
  | case1 => cases h
  | case2 c => cases h
  | case3 c d rest hpair =>
      rw [eraseQuote, if_pos hpair] at h
      cases h
      obtain ⟨rfl, rfl⟩ := hpair
      refine ⟨?_, Nat.lt_succ_self _, rfl⟩
      rw [squeeze.eq_def ('"' :: '"' :: rest)]
      exact (if_pos ⟨rfl, rfl⟩).symm
  | case4 c d rest hpair ih =>
      rw [eraseQuote, if_neg hpair] at h
      obtain ⟨w, hw, rfl⟩ := Option.map_eq_some_iff.mp h
      obtain ⟨hsqueeze, hlen, hhead⟩ := ih hw
      refine ⟨?_, Nat.succ_lt_succ hlen, rfl⟩
      rw [squeeze, squeeze, hsqueeze, hhead]

theorem eraseQuote_none {w : Text} (h : eraseQuote w = none) : squeeze w = w := by
  induction w using eraseQuote.induct with
  | case1 => rfl
  | case2 c => simp [squeeze]
  | case3 c d rest hpair =>
      rw [eraseQuote, if_pos hpair] at h
      cases h
  | case4 c d rest hpair ih =>
      rw [eraseQuote, if_neg hpair] at h
      have hpair' : ¬(c = '"' ∧ (d :: rest).head? = some '"') := by simpa using hpair
      rw [squeeze, if_neg hpair', ih (Option.map_eq_none_iff.mp h)]

/-- **The loop leaves one quote of each run.** -/
theorem eraseQuotes_eq {fuel : Nat} {w : Text} (h : w.length ≤ fuel) : eraseQuotes fuel w = squeeze w := by
  induction fuel generalizing w with
  | zero =>
      have hnil : w = [] := List.length_eq_zero_iff.mp (by omega)
      rw [hnil]
      rfl
  | succ fuel ih =>
      rw [eraseQuotes]
      cases herase : eraseQuote w with
      | none => exact (eraseQuote_none herase).symm
      | some w' =>
          obtain ⟨hsqueeze, hlen, _⟩ := eraseQuote_some herase
          rw [← hsqueeze]
          exact ih (by omega)

/-- A text with each quote twice. -/
def doubled (cell : Text) : Text := cell.flatMap fun c => if c ≠ '"' then [c] else ['"', '"']

theorem head?_doubled (cell : Text) : (doubled cell).head? = cell.head? := by
  cases cell with
  | nil => rfl
  | cons c cell =>
      rw [doubled, List.flatMap_cons]
      split
      · rfl
      · rename_i hc
        rw [not_not.mp hc]
        rfl

theorem squeeze_doubled (cell : Text) : squeeze (doubled cell) = squeeze cell := by
  induction cell with
  | nil => rfl
  | cons c cell ih =>
      have hhead := head?_doubled cell
      rw [doubled, List.flatMap_cons, ← doubled]
      by_cases hc : c = '"'
      · subst hc
        have hdouble : squeeze ('"' :: '"' :: doubled cell) = squeeze ('"' :: doubled cell) := by
          rw [squeeze.eq_def ('"' :: '"' :: doubled cell)]
          exact if_pos ⟨rfl, rfl⟩
        rw [if_neg (not_not_intro rfl)]
        refine hdouble.trans ?_
        rw [squeeze, squeeze, hhead, ih]
      · rw [if_pos hc, List.singleton_append, squeeze, squeeze, hhead, ih]

theorem doubled_of_notMem {cell : Text} (h : '"' ∉ cell) : doubled cell = cell := by
  induction cell with
  | nil => rfl
  | cons c cell ih =>
      obtain ⟨hc, hcell⟩ := not_or.mp (fun hmem => h (List.mem_cons.mpr hmem))
      rw [doubled, List.flatMap_cons, ← doubled, if_pos (Ne.symm hc), ih hcell]
      rfl

/-- **A cell is read back with one quote for each run of them.** -/
theorem sanitize_saveCell (cell : Text) : sanitize (saveCell cell) = some (squeeze cell) := by
  rw [saveCell, ← doubled]
  split
  · have hlast : ('"' :: (doubled cell ++ ['"'])).getLast? = some '"' := by
      rw [← List.cons_append, List.getLast?_concat]
    have hinner : (('"' :: (doubled cell ++ ['"'])).dropLast).drop 1 = doubled cell := by
      rw [← List.cons_append, List.dropLast_concat]
      rfl
    have hlen : ('"' :: (doubled cell ++ ['"'])).length ≥ 2 := by simp
    rw [sanitize, if_pos hlen, hlast, hinner, if_neg (by simp), if_pos ⟨rfl, rfl⟩]
    dsimp only
    rw [eraseQuotes_eq (Nat.le_refl _), squeeze_doubled]
  · rename_i hquote
    have hhead : cell.head? ≠ some '"' := fun h => hquote (List.mem_of_head? h)
    have hlast : cell.getLast? ≠ some '"' := fun h => hquote (List.mem_of_getLast? h)
    rw [doubled_of_notMem hquote, squeeze_of_notMem hquote, sanitize]
    split
    · rw [if_neg (by simp [hhead, hlast]), if_neg (by simp [hhead])]
    · rfl

/-! ## Rows -/

theorem mem_saveCell {cell : Text} {c : Char} (hc : c ≠ '"') : c ∈ saveCell cell ↔ c ∈ cell := by
  have hdoubled : c ∈ doubled cell ↔ c ∈ cell := by
    rw [doubled, List.mem_flatMap]
    refine ⟨?_, fun h => ⟨c, h, by rw [if_pos hc]; exact List.mem_singleton.mpr rfl⟩⟩
    rintro ⟨d, hd, hmem⟩
    split at hmem
    · rw [List.mem_singleton.mp hmem]
      exact hd
    · simp [hc] at hmem
  rw [saveCell, ← doubled]
  split
  · simp [hc, hdoubled]
  · exact hdoubled

theorem saveCell_eq_nil {cell : Text} : saveCell cell = [] ↔ cell = [] := by
  refine ⟨?_, ?_⟩
  · intro h
    rw [saveCell, ← doubled] at h
    split at h
    · cases h
    · rename_i hquote
      rwa [doubled_of_notMem hquote] at h
  · rintro rfl
    rfl

/-- Nothing is written of a row without cells, or with one that is empty. -/
theorem saveCells_eq_nil {row : List Text} : saveCells row = [] ↔ row = [] ∨ row = [[]] := by
  match row with
  | [] => simp [saveCells]
  | [cell] => simp [saveCells, saveCell_eq_nil]
  | cell :: d :: cells => simp [saveCells]

theorem mem_saveCells {row : List Text} {c : Char} (hquote : c ≠ '"') (hcomma : c ≠ ',')
    (h : c ∈ saveCells row) : ∃ cell ∈ row, c ∈ cell := by
  induction row using saveCells.induct with
  | case1 => cases h
  | case2 cell => exact ⟨cell, List.mem_cons_self, (mem_saveCell hquote).mp h⟩
  | case3 cell cells hne ih =>
      rw [saveCells] at h
      · rcases List.mem_append.mp h with h | h
        · exact ⟨cell, List.mem_cons_self, (mem_saveCell hquote).mp h⟩
        · rcases List.mem_cons.mp h with h | h
          · exact absurd h hcomma
          · obtain ⟨d, hd, hmem⟩ := ih h
            exact ⟨d, List.mem_cons_of_mem _ hd, hmem⟩
      · exact hne

/-- The words of a line are those of its cells. -/
theorem splitOn_saveCells {row : List Text} (h : row ≠ []) :
    (saveCells row).splitOn ',' = row.flatMap fun cell => (saveCell cell).splitOn ',' := by
  induction row using saveCells.induct with
  | case1 => exact absurd rfl h
  | case2 cell => rw [saveCells, List.flatMap_cons, List.flatMap_nil, List.append_nil]
  | case3 cell cells hne ih =>
      rw [saveCells]
      · rw [List.splitOn_append_cons_self, List.flatMap_cons, ih fun hnil => hne hnil]
      · exact hne

/-- There is a word for each cell, and more if one of them has a comma. -/
theorem length_splitOn_pos (l : Text) : 1 ≤ (l.splitOn ',').length :=
  List.length_pos_iff.mpr (List.splitOn_ne_nil ',' l)

theorem length_splitOn_of_mem {l : Text} (h : ',' ∈ l) : 2 ≤ (l.splitOn ',').length := by
  obtain ⟨before, after, rfl⟩ := List.append_of_mem h
  have hbefore := length_splitOn_pos before
  have hafter := length_splitOn_pos after
  rw [List.splitOn_append_cons_self, List.length_append]
  omega

theorem noComma_of_length {row : List Text}
    (h : (row.flatMap fun cell => (saveCell cell).splitOn ',').length = row.length) :
    ∀ cell ∈ row, ',' ∉ cell := by
  have hle : ∀ row : List Text, row.length ≤
    (row.flatMap fun cell => (saveCell cell).splitOn ',').length := by
    intro row
    induction row with
    | nil => exact Nat.le_refl _
    | cons cell row ih =>
        have hpos := length_splitOn_pos (saveCell cell)
        rw [List.flatMap_cons, List.length_append, List.length_cons]
        omega
  induction row with
  | nil => exact List.forall_mem_nil _
  | cons cell row ih =>
      have hrow := hle row
      have hpos := length_splitOn_pos (saveCell cell)
      rw [List.flatMap_cons, List.length_append, List.length_cons] at h
      refine List.forall_mem_cons.mpr ⟨?_, ih (by omega)⟩
      intro hcomma
      have htwo := length_splitOn_of_mem ((mem_saveCell (by decide)).mpr hcomma)
      omega

theorem flatMap_splitOn_of_noComma {row : List Text} (h : ∀ cell ∈ row, ',' ∉ cell) :
    (row.flatMap fun cell => (saveCell cell).splitOn ',') = row.map saveCell := by
  induction row with
  | nil => rfl
  | cons cell row ih =>
      obtain ⟨hcell, hrow⟩ := List.forall_mem_cons.mp h
      have hnot : ',' ∉ saveCell cell := fun hmem => hcell ((mem_saveCell (by decide)).mp hmem)
      rw [List.flatMap_cons, List.splitOn_eq_singleton hnot, ih hrow]
      rfl

theorem mapM_sanitize (row : List Text) : (row.map saveCell).mapM sanitize = some (row.map squeeze) := by
  induction row with
  | nil => rfl
  | cons cell row ih =>
      rw [List.map_cons, List.mapM_cons, sanitize_saveCell, ih]
      rfl

theorem length_of_mapM {ws row : List Text} (h : ws.mapM sanitize = some row) : row.length = ws.length := by
  induction ws generalizing row with
  | nil =>
      cases h
      rfl
  | cons w ws ih =>
      rw [List.mapM_cons] at h
      obtain ⟨cell, _, h⟩ := Option.bind_eq_some_iff.mp h
      obtain ⟨cells, hcells, h⟩ := Option.bind_eq_some_iff.mp h
      cases h
      rw [List.length_cons, List.length_cons, ih hcells]

/-- **A row comes back from its line** exactly if it is kept. -/
theorem words_sanitize_iff {row : List Text} (hwritten : row ≠ [] ∧ row ≠ [[]]) :
    (words (saveCells row)).mapM sanitize = some row ↔ Kept row := by
  have hline : saveCells row ≠ [] := fun h => (saveCells_eq_nil.mp h).elim hwritten.1 hwritten.2
  rw [words, if_neg hline, splitOn_saveCells hwritten.1]
  refine ⟨?_, ?_⟩
  · intro h
    have hcomma := noComma_of_length (length_of_mapM h).symm
    rw [flatMap_splitOn_of_noComma hcomma, mapM_sanitize, Option.some_inj] at h
    refine ⟨hwritten, hcomma, ?_⟩
    intro cell hcell
    have hid : row.map squeeze = row.map id := by rw [h, List.map_id]
    exact squeeze_eq_self_iff.mp (List.map_inj_left.mp hid cell hcell)
  · intro h
    rw [flatMap_splitOn_of_noComma h.noComma, mapM_sanitize, Option.some_inj]
    have hid : row.map squeeze = row.map id :=
      List.map_inj_left.mpr fun cell hcell => squeeze_eq_self_iff.mpr (h.noQuotes cell hcell)
    rw [hid, List.map_id]

/-! ## Files -/

/-- The lines of a table, each with an empty one behind it, which its two line breaks make. -/
def linesOf (rows : CsvContents) : List Text := rows.flatMap fun row => [saveCells row, []]

theorem split_save {rows : CsvContents}
    (h : ∀ row ∈ rows, ∀ cell ∈ row, '\r' ∉ cell ∧ '\n' ∉ cell) :
    (save rows).splitOnP (fun c => c == '\r' || c == '\n') = linesOf rows ++ [[]] := by
  induction rows with
  | nil => rfl
  | cons row rows ih =>
      obtain ⟨hrow, hrows⟩ := List.forall_mem_cons.mp h
      have hline : ∀ c ∈ saveCells row, (c == '\r' || c == '\n') = false := by
        intro c hc
        have hne : c ≠ '\r' ∧ c ≠ '\n' := by
          refine ⟨?_, ?_⟩
          · rintro rfl
            obtain ⟨cell, hcell, hmem⟩ := mem_saveCells (by decide) (by decide) hc
            exact (hrow cell hcell).1 hmem
          · rintro rfl
            obtain ⟨cell, hcell, hmem⟩ := mem_saveCells (by decide) (by decide) hc
            exact (hrow cell hcell).2 hmem
        simp [hne]
      have hsave : save (row :: rows) = saveCells row ++ '\r' :: ([] ++ '\n' :: save rows) := by
        rw [save, List.flatMap_cons, List.append_assoc]
        rfl
      rw [hsave, List.splitOnP_append_cons_of_forall_mem hline _ rfl,
        List.splitOnP_append_cons_of_forall_mem (List.forall_mem_nil _) _ rfl, ih hrows]
      rfl

section Load

variable {numCols : Option Nat} {contents : CsvContents} {row : List Text} {rows : CsvContents}

theorem loadLines_nil (lines : List Text) :
    loadLines numCols contents ([] :: lines) = loadLines numCols contents lines := by
  rw [loadLines, words, if_pos rfl]
  exact if_pos rfl

/-- **What the loop makes of a row.** -/
theorem loadLines_row (lines : List Text) :
    loadLines numCols contents ([saveCells row, []] ++ lines) =
      if row = [] ∨ row = [[]] then loadLines numCols contents lines
      else if numCols ≠ none ∧ numCols ≠ some (words (saveCells row)).length then (true, contents)
      else
        match (words (saveCells row)).mapM sanitize with
        | none => (false, [])
        | some line => loadLines (some (words (saveCells row)).length) (contents ++ [line]) lines := by
  rw [List.cons_append, List.cons_append, List.nil_append]
  split
  · rename_i hempty
    rw [saveCells_eq_nil.mpr hempty, loadLines_nil, loadLines_nil]
  · rename_i hwritten
    have hline : saveCells row ≠ [] := fun h => hwritten (saveCells_eq_nil.mp h)
    have hwords : words (saveCells row) ≠ [] := by
      rw [words, if_neg hline]
      exact List.splitOn_ne_nil ',' _
    rw [loadLines, if_neg hwords]
    split
    · rfl
    · cases (words (saveCells row)).mapM sanitize with
      | none => rfl
      | some line => exact loadLines_nil lines

/-- What is loaded is put behind what there is, and is no more than there are rows. -/
theorem loadLines_true {loaded : CsvContents}
    (h : loadLines numCols contents (linesOf rows ++ [[]]) = (true, loaded)) :
    ∃ more, loaded = contents ++ more ∧ more.length ≤ rows.length := by
  induction rows generalizing numCols contents with
  | nil =>
      cases h
      exact ⟨[], (List.append_nil _).symm, Nat.le_refl _⟩
  | cons row rows ih =>
      rw [linesOf, List.flatMap_cons, List.append_assoc, loadLines_row] at h
      rw [List.length_cons]
      split at h
      · obtain ⟨more, hloaded, hlen⟩ := ih h
        exact ⟨more, hloaded, by omega⟩
      · split at h
        · cases h
          exact ⟨[], (List.append_nil _).symm, Nat.zero_le _⟩
        · split at h
          · cases h
          · rename_i line _
            obtain ⟨more, hloaded, hlen⟩ := ih h
            refine ⟨line :: more, ?_, Nat.succ_le_succ hlen⟩
            rw [hloaded, List.append_assoc]
            rfl

/-- Rows that all come back are kept. -/
theorem kept_of_loadLines (h : loadLines numCols contents (linesOf rows ++ [[]]) = (true, contents ++ rows)) :
    ∀ row ∈ rows, Kept row := by
  induction rows generalizing numCols contents with
  | nil => exact List.forall_mem_nil _
  | cons row rows ih =>
      -- a row that is passed over or not reached leaves too few
      have htooFew : ∀ {more : CsvContents}, contents ++ row :: rows = contents ++ more →
          ¬more.length ≤ rows.length := by
        intro more heq hlen
        rw [← List.append_cancel_left heq, List.length_cons] at hlen
        omega
      rw [linesOf, List.flatMap_cons, List.append_assoc, loadLines_row] at h
      split at h
      · obtain ⟨more, hloaded, hlen⟩ := loadLines_true h
        exact absurd hlen (htooFew hloaded)
      · rename_i hwritten
        split at h
        · have hnone : contents ++ row :: rows = contents ++ [] := by
            rw [List.append_nil]
            exact (Prod.mk.inj h).2.symm
          exact absurd (Nat.zero_le _) (htooFew hnone)
        · split at h
          · cases h
          · rename_i line hline
            obtain ⟨more, hloaded, _⟩ := loadLines_true h
            rw [List.append_assoc] at hloaded
            have heq := List.append_cancel_left hloaded
            rw [List.singleton_append] at heq
            obtain ⟨rfl, rfl⟩ := List.cons.inj heq
            rw [List.append_cons contents row rows] at h
            exact List.forall_mem_cons.mpr ⟨(words_sanitize_iff (not_or.mp hwritten)).mp hline, ih h⟩

theorem loadLines_of_kept {columns : Nat} (hcols : numCols = none ∨ numCols = some columns)
    (hrect : ∀ row ∈ rows, row.length = columns) (h : ∀ row ∈ rows, Kept row) :
    loadLines numCols contents (linesOf rows ++ [[]]) = (true, contents ++ rows) := by
  induction rows generalizing numCols contents with
  | nil =>
      rw [List.append_nil]
      rfl
  | cons row rows ih =>
      obtain ⟨hlen, hrect⟩ := List.forall_mem_cons.mp hrect
      obtain ⟨hkept, hrows⟩ := List.forall_mem_cons.mp h
      have hback := (words_sanitize_iff hkept.written).mpr hkept
      have hwords : (words (saveCells row)).length = columns := by
        rw [← length_of_mapM hback, hlen]
      have hsame : ¬(numCols ≠ none ∧ numCols ≠ some columns) := by
        rintro ⟨hnone, hsome⟩
        exact hcols.elim hnone hsome
      rw [linesOf, List.flatMap_cons, List.append_assoc, loadLines_row,
        if_neg (not_or.mpr hkept.written), hwords, if_neg hsame, hback]
      refine (ih (.inr rfl) hrect hrows).trans ?_
      rw [List.append_assoc]
      rfl

end Load

/--
**A table comes back from its file** exactly if each row has something to write, and no
cell has a comma in it, or two quotes in a row.
-/
theorem load_save_iff (t : Table) : load [] (save t.rows) = (true, t.rows) ↔ ∀ row ∈ t.rows, Kept row := by
  rw [load, split_save t.plain]
  exact ⟨fun h => kept_of_loadLines h, loadLines_of_kept (.inl rfl) t.rectangular⟩

/-- Two cells, of which one has a comma. -/
def commaTable : Table where
  rows := [["a,b".toList, "c".toList]]
  columns := 2
  rectangular := by decide
  plain := by decide

theorem comma_splits : load [] (save commaTable.rows) ≠ (true, commaTable.rows) := by
  decide +kernel

end IronStack.Proof.CsvFile
