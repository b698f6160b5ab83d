/-
# The text of a chart determines the chart

A chart of side `n` is written as `n` lines of `n` fields.  The text can be read back without
knowing the word or the grammar (`readChart?`): it is cut at the ends of line, a line at its
tabs, and what stands between braces at the commas.  This works because none of these signs is a
letter, and because a cell without members is written as `{}`, unlike a place without a cell.
Main statements:

* `textFields?_text`: the fields that the text of a chart is cut into;
* `readChart?_text`: what is read from the text are the cells of the chart;
* `chart_text_determines_chart`: two charts with the same text are the same.
-/
import Mathlib.Data.List.Basic
import ChomskyGrammar.Proofs.Grammar.RuleOrder
import ChomskyGrammar.Proofs.Recognition.Refusals

namespace ChomskyGrammar

/-! ### Reading -/

/-- The fields of the lines of a text, if all lines are closed by an end of line.  Tabs stand
between the fields of a line. -/
def textFields? (text : String) : Option (List (List (List Char))) :=
  if (pieces '\n' text.toList).getLast? = some [] then
    some ((pieces '\n' text.toList).dropLast.map (pieces '\t'))
  else none

/-- What stands in a table at some row and column. -/
def place? {α : Type} (table : List (List α)) (i j : Nat) : Option α :=
  table[i]?.bind fun row => row[j]?

namespace Cell

/-- The nonterminal that a single character stands for. -/
def member? : List Char → Option Nonterminal
  | [c] => Nonterminal.ofChar? c
  | _ => none

/-- The cell whose members are listed with commas between them. -/
def ofMembers? (cs : List Char) : Option Cell :=
  if cs = [] then some .empty else ((pieces ',' cs).mapM member?).map SortedSet.ofList

/-- What a field shows: that there is no cell, or a cell in braces. -/
def ofField? : List Char → Option (Option Cell)
  | [] => some none
  | '{' :: rest =>
    if rest.getLast? = some '}' then (ofMembers? rest.dropLast).map some else none
  | _ => none

end Cell

/-- The table of cells that a text shows.  There is no cell at some of its places. -/
def readChart? (text : String) : Option (List (List (Option Cell))) := do
  let rows ← textFields? text
  rows.mapM fun row => row.mapM Cell.ofField?

/-! ### Fields are read back -/

namespace Cell

/-- No member of a cell is written with a character that is no uppercase letter. -/
lemma not_mem_members {c : Char} (hupper : isUppercase c = false) (cell : Cell) :
    ∀ cs ∈ cell.toList.map fun a => [a.char], c ∉ cs := by
  intro cs hcs
  obtain ⟨a, -, rfl⟩ := List.mem_map.1 hcs
  simpa using Nonterminal.ne_char hupper a

lemma ofMembers?_intercalate (cell : Cell) :
    ofMembers? ([','].intercalate (cell.toList.map fun a => [a.char])) = some cell := by
  by_cases hempty : cell.toList = []
  · rw [hempty, List.map_nil, List.intercalate_nil, ofMembers?, if_pos rfl]
    exact congrArg some (SortedSet.ext hempty.symm)
  · have hne : (cell.toList.map fun a => [a.char]) ≠ [] := by simpa using hempty
    have hcomma : ∀ cs ∈ cell.toList.map fun a => [a.char], ',' ∉ cs :=
      cell.not_mem_members (by decide)
    have hofList : SortedSet.ofList cell.toList = cell :=
      SortedSet.ext_mem fun _ => SortedSet.mem_ofList
    rw [ofMembers?, if_neg (intercalate_ne_nil hne (by simp)), pieces_intercalate hne hcomma,
      mapM_map_of_forall fun a _ => a.ofChar?_char, Option.map_some, hofList]

lemma ofField?_field (cell : Cell) : ofField? cell.field = some (some cell) := by
  rw [field, List.cons_append, ofField?, if_pos (by simp), List.dropLast_concat,
    ofMembers?_intercalate, Option.map_some]

/-- How a place with or without a cell is written. -/
def fieldOf (cell? : Option Cell) : List Char := cell?.elim [] field

/-- A field shows what it was written for. -/
lemma ofField?_fieldOf (cell? : Option Cell) : ofField? (fieldOf cell?) = some cell? := by
  cases cell? with
  | none => rfl
  | some cell => exact ofField?_field cell

/-- A field holds no letters but uppercase ones, and no signs but its braces and commas. -/
lemma not_mem_fieldOf {c : Char} (hupper : isUppercase c = false) (hsign : c ∉ ['{', ',', '}'])
    (cell? : Option Cell) : c ∉ fieldOf cell? := by
  simp only [List.mem_cons, List.not_mem_nil, or_false, not_or] at hsign
  cases cell? with
  | none => exact List.not_mem_nil
  | some cell =>
    have hmembers : c ∉ [','].intercalate (cell.toList.map fun a => [a.char]) :=
      not_mem_intercalate hsign.2.1 (cell.not_mem_members hupper)
    simp [fieldOf, field, hsign, hmembers]

end Cell

/-! ### Charts are read back -/

namespace Chart

/-- The cells of a chart in a square table, with no cells below the diagonal. -/
def table (chart : Chart) : List (List (Option Cell)) :=
  (List.range chart.side).map fun i => (List.range chart.side).map fun j => chart.get? i j

/-- The fields that a chart is written with. -/
def fields (chart : Chart) : List (List (List Char)) :=
  chart.table.map fun row => row.map Cell.fieldOf

/-- A chart is written row by row, with tabs between the fields of a row. -/
lemma textChars_eq (chart : Chart) :
    chart.textChars =
      (chart.fields.map fun row => ['\t'].intercalate row).flatMap fun l => l ++ ['\n'] := by
  have hrow : chart.rowChars = fun i => ['\t'].intercalate
      (((List.range chart.side).map fun j => chart.get? i j).map Cell.fieldOf) ++ ['\n'] := by
    funext i
    rw [rowChars, List.map_map]
    rfl
  rw [textChars, hrow, fields, table, List.map_map, List.map_map, List.flatMap_map]
  rfl

/-- As there is a row, the chart is not empty, and neither is the row. -/
lemma ne_nil_of_mem_fields {chart : Chart} {row : List (List Char)} (h : row ∈ chart.fields) :
    row ≠ [] := by
  simp only [fields, table, List.map_map, List.mem_map, List.mem_range] at h
  obtain ⟨i, hi, rfl⟩ := h
  simpa using Nat.ne_zero_of_lt hi

lemma not_mem_of_mem_fields {chart : Chart} {c : Char} (hupper : isUppercase c = false)
    (hsign : c ∉ ['{', ',', '}']) {row : List (List Char)} (h : row ∈ chart.fields) :
    ∀ field ∈ row, c ∉ field := by
  obtain ⟨cells, -, rfl⟩ := List.mem_map.1 h
  intro field hfield
  obtain ⟨cell?, -, rfl⟩ := List.mem_map.1 hfield
  exact Cell.not_mem_fieldOf hupper hsign cell?

/-- The text of a chart is cut into the fields that it was written with. -/
theorem textFields?_text (chart : Chart) : textFields? chart.text = some chart.fields := by
  have hline : ∀ l ∈ chart.fields.map fun row => ['\t'].intercalate row, '\n' ∉ l := by
    intro l hl
    obtain ⟨row, hrow, rfl⟩ := List.mem_map.1 hl
    exact not_mem_intercalate (by decide) (not_mem_of_mem_fields (by decide) (by decide) hrow)
  have hrow : ∀ row ∈ chart.fields, pieces '\t' (['\t'].intercalate row) = row := fun row hrow =>
    pieces_intercalate (ne_nil_of_mem_fields hrow)
      (not_mem_of_mem_fields (by decide) (by decide) hrow)
  rw [textFields?, text, String.toList_ofList, textChars_eq, pieces_flatMap hline,
    if_pos List.getLast?_concat, List.dropLast_concat, List.map_map]
  exact congrArg some ((List.map_congr_left hrow).trans (List.map_id _))

/-- The cells that are read from the text of a chart are its own. -/
theorem readChart?_text (chart : Chart) : readChart? chart.text = some chart.table := by
  rw [readChart?, textFields?_text, fields]
  exact mapM_map_of_forall fun row _ => mapM_map_of_forall fun c _ => Cell.ofField?_fieldOf c

lemma place?_table_of_lt {chart : Chart} {i j : Nat} (hi : i < chart.side) (hj : j < chart.side) :
    place? chart.table i j = some (chart.get? i j) := by
  simp [place?, table, hi, hj]

lemma place?_table_of_le {chart : Chart} {i j : Nat} (h : chart.side ≤ i ∨ chart.side ≤ j) :
    place? chart.table i j = none := by
  by_cases hi : i < chart.side
  · have hj : chart.side ≤ j := by omega
    simp [place?, table, hi, hj]
  · simp [place?, table, hi]

/-- The table of a chart has its cells, and no others. -/
lemma join_place?_table (chart : Chart) (i j : Nat) :
    (place? chart.table i j).join = chart.get? i j := by
  by_cases h : i < chart.side ∧ j < chart.side
  · rw [place?_table_of_lt h.1 h.2, Option.join_some]
  · have hnone : chart.get? i j = none := Triangle.get?_eq_none_iff.2 (by omega)
    rw [place?_table_of_le (by omega), hnone, Option.join_none]

lemma place?_fields (chart : Chart) (i j : Nat) :
    place? chart.fields i j = (place? chart.table i j).map Cell.fieldOf := by
  rw [place?, place?, fields, List.getElem?_map]
  cases chart.table[i]? with
  | none => rfl
  | some row => exact List.getElem?_map

/-- Whether rows of fields show a chart. -/
structure ShownBy (chart : Chart) (rows : List (List (List Char))) : Prop where
  /-- There are as many rows as the chart has. -/
  length_rows : rows.length = chart.side
  /-- Every row has as many fields as there are rows. -/
  length_row : ∀ row ∈ rows, row.length = chart.side
  /-- The fields below the diagonal are empty. -/
  below : ∀ i j, j < i → i < chart.side → place? rows i j = some []
  /-- The others list the members of their cells in braces, each once and in ascending order. -/
  above : ∀ i j, i ≤ j → j < chart.side → ∃ (cell : Cell) (members : List Nonterminal),
    chart.get? i j = some cell ∧ (∀ a, a ∈ members ↔ a ∈ cell) ∧ members.Nodup ∧
      (members.Pairwise fun a b => a.char < b.char) ∧
      place? rows i j = some ('{' :: [','].intercalate (members.map fun a => [a.char]) ++ ['}'])

/-- The fields of a chart show it. -/
theorem shownBy_fields (chart : Chart) : chart.ShownBy chart.fields where
  length_rows := by simp [fields, table]
  length_row row hrow := by
    simp only [fields, table, List.map_map, List.mem_map] at hrow
    obtain ⟨i, -, rfl⟩ := hrow
    simp
  below i j hji hi := by
    have hnone : chart.get? i j = none := Triangle.get?_eq_none_iff.2 (.inl hji)
    rw [place?_fields, place?_table_of_lt hi (by omega), hnone]
    rfl
  above i j hij hj := by
    have hsome : chart.get? i j ≠ none := by
      rw [ne_eq, Triangle.get?_eq_none_iff]
      omega
    obtain ⟨cell, hcell⟩ := Option.ne_none_iff_exists'.1 hsome
    refine ⟨cell, cell.toList, hcell, fun _ => SortedSet.mem_iff.symm, cell.nodup,
      cell.ascending, ?_⟩
    rw [place?_fields, place?_table_of_lt (by omega) hj, hcell]
    rfl

end Chart

/-! ### A triangle is determined by its cells -/

namespace Triangle

variable {α : Type}

/-- Triangles of one side with the same cells are equal. -/
theorem ext_get? {t t' : Triangle α} (hside : t.side = t'.side)
    (hget : ∀ i j, t.get? i j = t'.get? i j) : t = t' := by
  obtain ⟨n, cells, hsize⟩ := t
  obtain ⟨n', cells', hsize'⟩ := t'
  obtain rfl : n = n' := hside
  have hcells : cells = cells' := by
    refine Array.ext_getElem? fun k => ?_
    by_cases hk : k < area n
    · obtain ⟨i, j, hij⟩ := exists_index? hk
      have h := hget i j
      simpa [get?, hij] using h
    · rw [Array.getElem?_eq_none (by omega), Array.getElem?_eq_none (by omega)]
  subst hcells
  rfl

end Triangle

/-! ### The text of a chart -/

namespace Chart

variable {chart chart' : Chart}

/-- Charts with the same text have the same cells. -/
lemma cells_eq_of_text_eq (h : chart.text = chart'.text) :
    chart.side = chart'.side ∧ ∀ i j, chart.get? i j = chart'.get? i j := by
  have htable : chart.table = chart'.table := by
    have hread := readChart?_text chart
    rw [h, readChart?_text, Option.some.injEq] at hread
    exact hread.symm
  refine ⟨by simpa [table] using congrArg List.length htable, fun i j => ?_⟩
  rw [← join_place?_table, ← join_place?_table, htable]

end Chart

namespace Grammar

variable {g : Grammar} {word : String} {chart : Chart}

/-- The chart of a word has a row for each character of the word. -/
lemma side_of_chart (h : g.chart word = .ok chart) : chart.side = word.length := by
  obtain ⟨s, hquery⟩ := chart_eq_ok_iff.1 h
  obtain ⟨w, hw, -, -, rfl⟩ := startAndChart_eq_ok_iff.1 hquery
  obtain ⟨hletters, -⟩ := readWord_eq_ok_iff.1 hw
  rw [Chart.side_ofWord, ← String.length_toList, ← hletters, List.length_map]

/-- **The text of a chart determines the chart.**  The text of the chart of a word of any length `n`
consists of `n` lines of `n` fields, each line closed by an end of line, which show the chart; read
back, they give its side and every cell.  Two charts, of whatever grammars and words, have the same
text exactly if they have the same side and the same cells, and then they are equal. -/
theorem chart_text_determines_chart (h : g.chart word = .ok chart) :
    g.chartText word = .ok chart.text ∧ chart.side = word.length ∧
    (∃ rows, textFields? chart.text = some rows ∧ chart.ShownBy rows) ∧
    (∃ table, readChart? chart.text = some table ∧ table.length = chart.side ∧
      ∀ i j, (place? table i j).join = chart.get? i j) ∧
    ∀ (g' : Grammar) (word' : String) (chart' : Chart), g'.chart word' = .ok chart' →
      ((chart.text = chart'.text ↔
        chart.side = chart'.side ∧ ∀ i j, chart.get? i j = chart'.get? i j) ∧
      (chart.text = chart'.text ↔ chart = chart')) := by
  refine ⟨?_, side_of_chart h, ⟨_, chart.textFields?_text, chart.shownBy_fields⟩,
    ⟨_, chart.readChart?_text, by simp [Chart.table], chart.join_place?_table⟩, ?_⟩
  · rw [chartText, h]
    rfl
  · intro g' word' chart' _
    refine ⟨⟨Chart.cells_eq_of_text_eq, fun hsame => ?_⟩, fun htext => ?_, fun heq => ?_⟩
    · rw [Triangle.ext_get? hsame.1 hsame.2]
    · obtain ⟨hside, hget⟩ := Chart.cells_eq_of_text_eq htext
      exact Triangle.ext_get? hside hget
    · rw [heq]

/-- The chart of the pair of brackets inside nested ones. -/
def brackets.pairChart : Chart := Chart.ofWord brackets.rules.toList (factor brackets.nested 1 2)

/-- The chart of the two opening ones.  The cell of the whole word is there but has no members. -/
def brackets.openingChart : Chart :=
  Chart.ofWord brackets.rules.toList (factor brackets.nested 0 1)

/-- The charts of these two words are told apart by their texts. -/
theorem charts_of_two_brackets_are_told_apart :
    brackets.chart "lr" = .ok brackets.pairChart ∧
    brackets.chart "ll" = .ok brackets.openingChart ∧
    brackets.pairChart.text = "\x7bL\x7d\t\x7bS\x7d\n\t\x7bR\x7d\n" ∧
    brackets.openingChart.text = "\x7bL\x7d\t\x7b\x7d\n\t\x7bL\x7d\n" ∧
    brackets.pairChart.side = 2 ∧ brackets.pairChart ≠ brackets.openingChart ∧
    (∃ rows, textFields? brackets.pairChart.text = some rows ∧ brackets.pairChart.ShownBy rows) ∧
    ∃ table, readChart? brackets.pairChart.text = some table ∧
      ∀ i j, (place? table i j).join = brackets.pairChart.get? i j := by
  have hpair : brackets.chart "lr" = .ok brackets.pairChart := by decide +kernel
  have hopening : brackets.chart "ll" = .ok brackets.openingChart := by decide +kernel
  have htext : brackets.pairChart.text = "\x7bL\x7d\t\x7bS\x7d\n\t\x7bR\x7d\n" := by
    decide +kernel
  have htext' : brackets.openingChart.text = "\x7bL\x7d\t\x7b\x7d\n\t\x7bL\x7d\n" := by
    decide +kernel
  obtain ⟨-, hside, hshown, ⟨table, hread, -, hcells⟩, hsame⟩ := chart_text_determines_chart hpair
  refine ⟨hpair, hopening, htext, htext', hside, ?_, hshown, table, hread, hcells⟩
  rw [ne_eq, ← (hsame brackets "ll" _ hopening).2, htext, htext']
  decide

end Grammar

end ChomskyGrammar
