/-
# Charts

The chart of a word `w` is a triangle of cells: cell `(i, j)` holds the nonterminals that
derive the factor of `w` from position `i` to position `j`.  A factor of one letter is
derived by the heads of its unit rules.  A longer factor is derived by the head of a
binary rule whose two halves derive the two parts of some split of the factor, and both
parts are shorter; so the cells are filled in by ascending length of their factors.

The rules are given as a list, from which an index is made once for the whole chart.  A cell
is a set of heads, so neither the order of that list nor repetitions in it can be seen in the
chart.
-/
import ChomskyGrammar.Recognition.RuleIndex
import ChomskyGrammar.Recognition.Triangle

namespace ChomskyGrammar

/-- The nonterminals that derive one factor of a word. -/
abbrev Cell := SortedSet Nonterminal

/-- The cells of all factors of a word. -/
abbrev Chart := Triangle Cell

namespace Chart

/-- The heads that derive a factor of two parts, from the cells of the parts. -/
def pairHeads (ix : RuleIndex) (left right : Cell) : List Nonterminal :=
  left.toList.flatMap fun b => right.toList.flatMap fun c => ix.pairHeads b c

/-- The heads that derive the factor from `i` to `j` by a split after position `k`. -/
def splitHeads (ix : RuleIndex) (chart : Chart) (i k j : Nat) : List Nonterminal :=
  match chart.get? i k, chart.get? (k + 1) j with
  | some left, some right => pairHeads ix left right
  | _, _ => []

/-- The content of the cell `(i, j)`, given a chart that holds all shorter factors. -/
def cellAt (ix : RuleIndex) (word : List Terminal) (chart : Chart) (i j : Nat) : Cell :=
  if i = j then
    SortedSet.ofList (word[i]?.elim [] ix.unitHeads)
  else
    -- The factor is split after each of the positions `i`, …, `j - 1`.
    SortedSet.ofList
      ((List.range (j - i)).flatMap fun d => splitHeads ix chart i (i + d) j)

/-- The pairs `i ≤ j < n`, by ascending distance of `i` and `j`. -/
def fillOrder (n : Nat) : List (Nat × Nat) :=
  (List.range n).flatMap fun d => (List.range (n - d)).map fun i => (i, i + d)

/-- The chart of a word. -/
def ofWord (rules : List Rule) (word : List Terminal) : Chart :=
  let ix := RuleIndex.ofRules rules
  (fillOrder word.length).foldl
    (fun chart p => chart.set p.1 p.2 (cellAt ix word chart p.1 p.2))
    (Triangle.replicate word.length .empty)

/-- Whether a nonterminal derives the whole word; nothing derives the empty word. -/
def derives (chart : Chart) (a : Nonterminal) : Bool :=
  chart.corner?.any fun cell => decide (a ∈ cell)

theorem mem_pairHeads {rules : List Rule} {left right : Cell} {a : Nonterminal} :
    a ∈ pairHeads (.ofRules rules) left right ↔
      ∃ b c, (⟨a, .binary b c⟩ : Rule) ∈ rules ∧ b ∈ left ∧ c ∈ right := by
  simp only [pairHeads, List.mem_flatMap, RuleIndex.mem_pairHeads]
  constructor
  · rintro ⟨b, hb, c, hc, h⟩
    exact ⟨b, c, h, hb, hc⟩
  · rintro ⟨b, c, h, hb, hc⟩
    exact ⟨b, hb, c, hc, h⟩

end Chart

end ChomskyGrammar
