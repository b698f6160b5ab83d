/-
# Ranges of code points

A character class is a table of ranges of code points.  A range may take every
code point from its first to its last, or only every second one: in many scripts
the capital and the small letters alternate.
-/

namespace ChomskyGrammar

/-- The code points `first`, `first + step`, `first + 2 * step`, … up to `last`. -/
structure CodeRange where
  /-- The lowest code point of the range. -/
  first : Nat
  /-- No code point above this one is in the range. -/
  last : Nat
  /-- The distance between neighbours. -/
  step : Nat
deriving DecidableEq, Repr

namespace CodeRange

/-- Whether a character's code point is in the range. -/
def contains (r : CodeRange) (c : Char) : Bool :=
  decide (r.first ≤ c.toNat) && decide (c.toNat ≤ r.last) &&
    decide ((c.toNat - r.first) % r.step = 0)

theorem contains_iff {r : CodeRange} {c : Char} :
    r.contains c = true ↔
      r.first ≤ c.toNat ∧ c.toNat ≤ r.last ∧ (c.toNat - r.first) % r.step = 0 := by
  simp [contains, and_assoc]

end CodeRange

/-- Whether a table of ranges covers a character. -/
def inRanges (table : List CodeRange) (c : Char) : Bool :=
  table.any fun r => r.contains c

theorem inRanges_iff {table : List CodeRange} {c : Char} :
    inRanges table c = true ↔ ∃ r ∈ table, r.contains c = true := by
  simp [inRanges]

end ChomskyGrammar
