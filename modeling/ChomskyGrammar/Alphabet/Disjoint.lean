/-
# The character classes do not overlap

No character is both uppercase and lowercase, so a character of a grammar is a
nonterminal or a terminal but never both, and none of them is blank, so a written
symbol is never swallowed as space.  Each statement is reduced to the tables: two
ranges do not meet if one ends before the other starts, or if one holds even code points
only and the other odd ones only.
-/
import ChomskyGrammar.Alphabet.Uppercase
import ChomskyGrammar.Alphabet.Lowercase
import ChomskyGrammar.Alphabet.Blank

namespace ChomskyGrammar

namespace CodeRange

/-- Whether all code points of the range are even or all are odd, because it takes every
second one or has a single one. -/
def oneParity (r : CodeRange) : Bool :=
  decide (r.step = 2) || decide (r.first = r.last)

theorem mod_two_of_oneParity {r : CodeRange} {c : Char} (h : r.oneParity = true)
    (hc : r.contains c = true) : c.toNat % 2 = r.first % 2 := by
  rw [contains_iff] at hc
  obtain ⟨h₁, h₂, h₃⟩ := hc
  simp only [oneParity, Bool.or_eq_true, decide_eq_true_eq] at h
  rcases h with h | h
  · rw [h] at h₃
    omega
  · have hc : c.toNat = r.first := by omega
    rw [hc]

/-- A sufficient test for two ranges to have no code point in common. -/
def apart (r s : CodeRange) : Bool :=
  decide (r.last < s.first) || decide (s.last < r.first) ||
    (r.oneParity && s.oneParity && decide (r.first % 2 ≠ s.first % 2))

theorem not_contains_of_apart {r s : CodeRange} {c : Char} (h : r.apart s = true)
    (hr : r.contains c = true) : s.contains c = false := by
  rw [Bool.eq_false_iff]
  intro hs
  simp only [apart, Bool.or_eq_true, Bool.and_eq_true, decide_eq_true_eq] at h
  rcases h with (h | h) | ⟨⟨h₁, h₂⟩, h₃⟩
  · have := contains_iff.1 hr
    have := contains_iff.1 hs
    omega
  · have := contains_iff.1 hr
    have := contains_iff.1 hs
    omega
  · have := mod_two_of_oneParity h₁ hr
    have := mod_two_of_oneParity h₂ hs
    omega

end CodeRange

/-- Whether every range of one table is apart from every range of another. -/
def tablesApart (xs ys : List CodeRange) : Bool :=
  xs.all fun r => ys.all fun s => r.apart s

theorem not_inRanges_of_tablesApart {xs ys : List CodeRange} {c : Char}
    (h : tablesApart xs ys = true) (hc : inRanges xs c = true) : inRanges ys c = false := by
  rw [Bool.eq_false_iff]
  intro hc'
  obtain ⟨r, hr, hrc⟩ := inRanges_iff.1 hc
  obtain ⟨s, hs, hsc⟩ := inRanges_iff.1 hc'
  have hrs : r.apart s = true := List.all_eq_true.1 (List.all_eq_true.1 h r hr) s hs
  rw [CodeRange.not_contains_of_apart hrs hrc] at hsc
  exact Bool.false_ne_true hsc

theorem isLowercase_eq_false_of_isUppercase {c : Char} (h : isUppercase c = true) :
    isLowercase c = false :=
  not_inRanges_of_tablesApart (by decide +kernel) h

theorem isUppercase_eq_false_of_isLowercase {c : Char} (h : isLowercase c = true) :
    isUppercase c = false := by
  rw [Bool.eq_false_iff]
  intro h'
  rw [isLowercase_eq_false_of_isUppercase h'] at h
  exact Bool.false_ne_true h

theorem isBlank_eq_false_of_isUppercase {c : Char} (h : isUppercase c = true) :
    isBlank c = false :=
  not_inRanges_of_tablesApart (by decide +kernel) h

theorem isBlank_eq_false_of_isLowercase {c : Char} (h : isLowercase c = true) :
    isBlank c = false :=
  not_inRanges_of_tablesApart (by decide +kernel) h

end ChomskyGrammar
