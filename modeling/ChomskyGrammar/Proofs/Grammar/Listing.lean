/-
# What can be seen of a grammar does not depend on how its rules are listed

The rules of a grammar are a set for each head, and neither the heads nor the bodies of a head
come in an order of their own.  A `Listing` puts both in some order.  Everything that is told of
a grammar goes through a listing: its text is written in the order of the symbols, so what is
listed is sorted before; a chart is filled in with sets of heads; and random words are picked
from sorted candidates.  So all listings of a grammar tell the same (`Listing.sameAs`), and the
text, the answers and the charts that a listing tells are those of the grammar (`dump_eq`,
`derives_eq`, `chartText_eq`).
-/
import Mathlib.Data.List.Sort
import ChomskyGrammar.Grammar.Dump
import ChomskyGrammar.Proofs.Generation.RuleListing
import ChomskyGrammar.Proofs.Recognition.Cells
import ChomskyGrammar.Recognition.Query

namespace ChomskyGrammar

/-! ### Sorting -/

/-- A list in the order of ranks, repetitions kept. -/
def sortByRank {α : Type} [Ranked α] (l : List α) : List α :=
  l.mergeSort fun a b => decide (Ranked.rank a ≤ Ranked.rank b)

/-- The members of a set are sorted into its order, from whatever order they are in. -/
lemma SortedSet.sortByRank_eq {α : Type} [Ranked α] {s : SortedSet α} {l : List α}
    (h : l.Perm s.toList) : sortByRank l = s.toList := by
  have hsorted : (sortByRank l).Pairwise fun a b => Ranked.rank a ≤ Ranked.rank b := by
    refine (List.pairwise_mergeSort ?_ ?_ l).imp of_decide_eq_true
    · intro a b c hab hbc
      simp only [decide_eq_true_eq] at hab hbc ⊢
      exact Nat.le_trans hab hbc
    · intro a b
      simpa using Nat.le_total (Ranked.rank a) (Ranked.rank b)
  refine List.Perm.eq_of_pairwise ?_ hsorted (s.ascending.imp Nat.le_of_lt)
    ((List.mergeSort_perm l _).trans h)
  intro a b _ _ hab hba
  exact Ranked.rank_injective a b (Nat.le_antisymm hab hba)

/-! ### Charts -/

namespace Chart

variable {rules rules' : List Rule}

lemma cellAt_congr (h : ∀ r, r ∈ rules ↔ r ∈ rules') (word : List Terminal) (chart : Chart)
    (i j : Nat) :
    cellAt (.ofRules rules) word chart i j = cellAt (.ofRules rules') word chart i j := by
  refine SortedSet.ext_mem fun a => ?_
  rw [cellAt, cellAt]
  split
  · cases word[i]? with
    | none => rfl
    | some t => simp only [SortedSet.mem_ofList, Option.elim_some, RuleIndex.mem_unitHeads, h]
  · simp only [SortedSet.mem_ofList, List.mem_flatMap, mem_splitHeads, h]

/-- The same rules, in whatever order, fill in the same chart. -/
theorem ofWord_congr (h : ∀ r, r ∈ rules ↔ r ∈ rules') (word : List Terminal) :
    ofWord rules word = ofWord rules' word := by
  simp only [ofWord, cellAt_congr h]

end Chart

namespace Grammar

/-! ### Listings -/

/-- An order in which the rules of a grammar are listed: its heads in some order, and the bodies
of each of them in some order. -/
structure Listing (g : Grammar) where
  heads : List Nonterminal
  bodies : Nonterminal → List Body
  /-- Every head is listed once. -/
  heads_perm : heads.Perm g.heads.toList
  /-- Every body of a nonterminal is listed once. -/
  bodies_perm : ∀ a, (bodies a).Perm (g.bodies a).toList

/-- Every grammar has a listing, the one in ascending order. -/
instance (g : Grammar) : Inhabited g.Listing :=
  ⟨⟨g.heads.toList, fun a => (g.bodies a).toList, .refl _, fun _ => .refl _⟩⟩

namespace Listing

variable {g : Grammar} (l : g.Listing)

/-- The rules, head by head. -/
def rules : List Rule := l.heads.flatMap fun a => (l.bodies a).map (Rule.mk a)

/-- The text of the grammar. -/
def dump : String :=
  String.ofList (['\n'].intercalate
    ((sortByRank l.heads).map fun a => ruleLineChars a (sortByRank (l.bodies a))))

/-- The start symbol and the chart of a word. -/
def startAndChart (text : String) : Except GrammarError (Nonterminal × Chart) :=
  match g.readWord text.toList with
  | .error e => .error e
  | .ok w =>
    match g.queryStart with
    | .error e => .error e
    | .ok a => .ok (a, Chart.ofWord l.rules w)

/-- Whether the start symbol derives a word. -/
def derives (text : String) : Except GrammarError Bool :=
  (l.startAndChart text).map fun p => p.2.derives p.1

/-- The text of the chart of a word. -/
def chartText (text : String) : Except GrammarError String :=
  (l.startAndChart text).map fun p => p.2.text

/-- A random word derived from a nonterminal. -/
def word {σ : Type} [RandomSource σ] (maxDepth : Nat) (a : Nonterminal) (s : σ) :
    EStateM.Result GenerationError σ (List Terminal) :=
  Generation.word l.rules maxDepth a s

/-- A listing has the rules of its grammar. -/
lemma mem_rules {r : Rule} : r ∈ l.rules ↔ r ∈ g.rules := by
  obtain ⟨a, b⟩ := r
  simp only [rules, List.mem_flatMap, List.mem_map, Rule.mk.injEq]
  constructor
  · rintro ⟨a, -, b, hb, rfl, rfl⟩
    exact mem_bodies.1 ((l.bodies_perm a).mem_iff.1 hb)
  · intro h
    exact ⟨a, l.heads_perm.mem_iff.2 (mem_heads.2 ⟨b, h⟩), b,
      (l.bodies_perm a).mem_iff.2 (mem_bodies.2 h), rfl, rfl⟩

/-! ### What a listing tells -/

lemma dump_eq : l.dump = g.dump := by
  rw [dump, Grammar.dump, dumpChars, SortedSet.sortByRank_eq l.heads_perm]
  simp only [SortedSet.sortByRank_eq (l.bodies_perm _)]

lemma startAndChart_eq (text : String) : l.startAndChart text = g.startAndChart text := by
  have hchart : Chart.ofWord l.rules = Chart.ofWord g.rules.toList :=
    funext (Chart.ofWord_congr fun _ => l.mem_rules)
  rw [startAndChart, hchart]
  rfl

lemma derives_eq (text : String) : l.derives text = g.derives text := by
  rw [derives, startAndChart_eq, Grammar.derives, membership]
  cases g.startAndChart text <;> rfl

lemma chartText_eq (text : String) : l.chartText text = g.chartText text := by
  rw [chartText, startAndChart_eq, Grammar.chartText, chart]
  cases g.startAndChart text <;> rfl

/-- Whether two listings, perhaps of different grammars, tell the same: the texts of the grammars
are the same, every question about a word gets the same answer and the same chart, or the same
refusal, and every random source makes the same words, or fails in the same way, with the same
picks.  The last is asked only if no yield gets too large. -/
structure SameAs {g' : Grammar} (l : g.Listing) (l' : g'.Listing) : Prop where
  dump : l.dump = l'.dump
  derives : ∀ text, l.derives text = l'.derives text
  chartText : ∀ text, l.chartText text = l'.chartText text
  word : ShortestYields.compute? l.rules ≠ none → ShortestYields.compute? l'.rules ≠ none →
    ∀ (σ : Type) [RandomSource σ] (maxDepth : Nat) (a : Nonterminal) (s : σ),
      l.word maxDepth a s = l'.word maxDepth a s

/-- **All listings of a grammar tell the same.** -/
theorem sameAs (l l' : g.Listing) : l.SameAs l' where
  dump := by rw [dump_eq, dump_eq]
  derives text := by rw [derives_eq, derives_eq]
  chartText text := by rw [chartText_eq, chartText_eq]
  word hys hys' _ _ maxDepth a s :=
    Generation.word_congr (fun _ => l.mem_rules.trans l'.mem_rules.symm) hys hys' maxDepth a s

end Listing

end Grammar

end ChomskyGrammar
