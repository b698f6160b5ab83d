/-
# Writing a chart down

A chart of side `n` is written as `n` lines of `n` fields.  A field is the cell of its row
and column, as `{A,B}`, and is left blank below the diagonal, where there are no cells.
-/
import ChomskyGrammar.Recognition.Chart

namespace ChomskyGrammar

namespace Cell

/-- The members of a cell, as they are written, one after the other. -/
def chars (cell : Cell) : List Char := cell.toList.map fun a => a.char

/-- The cell in braces, its members separated by commas. -/
def field (cell : Cell) : List Char :=
  '{' :: [','].intercalate (cell.toList.map fun a => [a.char]) ++ ['}']

end Cell

namespace Chart

/-- One line of the chart: its fields separated by tabs, and an end of line. -/
def rowChars (chart : Chart) (i : Nat) : List Char :=
  ['\t'].intercalate
    ((List.range chart.side).map fun j => (chart.get? i j).elim [] Cell.field) ++ ['\n']

/-- All lines of the chart. -/
def textChars (chart : Chart) : List Char :=
  (List.range chart.side).flatMap chart.rowChars

/-- The text of the chart. -/
def text (chart : Chart) : String := String.ofList chart.textChars

end Chart

end ChomskyGrammar
