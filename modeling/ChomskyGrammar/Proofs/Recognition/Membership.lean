/-
# Questions about a word are answered correctly

A query about a word of declared letters is never refused if the grammar has a start symbol
and a rule.  Its chart is exact, and the answer is whether the start symbol derives the word
(`chart_exact_and_membership_iff`).
-/
import ChomskyGrammar.Generation.Word
import ChomskyGrammar.Proofs.Grammar.Reachable
import ChomskyGrammar.Proofs.Recognition.Cells
import ChomskyGrammar.Recognition.Query

namespace ChomskyGrammar

open Generation (wordText)

namespace Grammar

variable {g : Grammar} {a s : Nonterminal} {w : List Terminal}

/-! ### Queries that are not refused -/

lemma readLetter_char {t : Terminal} (h : t ∈ g.terminals) : g.readLetter t.char = .ok t := by
  simp [readLetter, Symbol.classify_terminal, h]

/-- A word of declared letters is read back. -/
lemma readWord_wordText (hw : ∀ t ∈ w, t ∈ g.terminals) :
    g.readWord (wordText w).toList = .ok w := by
  rw [wordText, String.toList_ofList, readWord]
  induction w with
  | nil => rfl
  | cons t w ih =>
    have ht : g.readLetter t.char = .ok t := readLetter_char (hw t List.mem_cons_self)
    have hrest := ih fun t' ht' => hw t' (List.mem_cons_of_mem t ht')
    rw [List.map_cons, List.mapM_cons, ht, hrest]
    rfl

lemma WellFormed.isEmpty_eq_false (hg : g.WellFormed) (hs : g.start = some s)
    (hr : 0 < g.ruleCount) : g.isEmpty = false := by
  have hmem : s ∈ g.nonterminals.toList := hg.start_mem s hs
  have hnonterminals : g.nonterminals.toList ≠ [] := List.ne_nil_of_mem hmem
  have hrules : g.rules.toList ≠ [] := List.length_pos_iff.1 hr
  simp [isEmpty, SortedSet.isEmpty, hnonterminals, hrules]

lemma startAndChart_eq_ok_iff {text : String} {c : Chart} :
    g.startAndChart text = .ok (s, c) ↔
      ∃ w, g.readWord text.toList = .ok w ∧ g.start = some s ∧ g.isEmpty = false ∧
        c = Chart.ofWord g.rules.toList w := by
  rw [startAndChart, queryStart]
  cases g.readWord text.toList with
  | error e => simp
  | ok v =>
    cases g.start with
    | none => simp
    | some b =>
      cases g.isEmpty with
      | true => simp
      | false => simp [eq_comm]

/-- The chart behind every query about a word of declared letters. -/
lemma WellFormed.startAndChart_wordText (hg : g.WellFormed) (hs : g.start = some s)
    (hr : 0 < g.ruleCount) (hw : ∀ t ∈ w, t ∈ g.terminals) :
    g.startAndChart (wordText w) = .ok (s, Chart.ofWord g.rules.toList w) :=
  startAndChart_eq_ok_iff.2 ⟨w, readWord_wordText hw, hs, hg.isEmpty_eq_false hs hr, rfl⟩

/-! ### What the answers are -/

lemma chart_of_startAndChart {text : String} {c : Chart}
    (h : g.startAndChart text = .ok (s, c)) : g.chart text = .ok c := by
  rw [chart, h]
  rfl

lemma membership_of_startAndChart {text : String} {c : Chart}
    (h : g.startAndChart text = .ok (s, c)) : g.membership text = .ok (c.derives s, c) := by
  rw [membership, h]
  rfl

lemma derives_of_startAndChart {text : String} {c : Chart}
    (h : g.startAndChart text = .ok (s, c)) : g.derives text = .ok (c.derives s) := by
  rw [derives, membership_of_startAndChart h]
  rfl

lemma chart_eq_ok_iff {text : String} {c : Chart} :
    g.chart text = .ok c ↔ ∃ s, g.startAndChart text = .ok (s, c) := by
  rw [chart]
  cases g.startAndChart text <;> simp [Except.map, Prod.ext_iff]

/-- The answer is yes if the chart says so of the start symbol. -/
lemma derives_eq_ok_true_iff {text : String} :
    g.derives text = .ok true ↔ ∃ s c, g.startAndChart text = .ok (s, c) ∧ c.derives s = true := by
  rw [derives, membership]
  cases g.startAndChart text <;> simp [Except.map, Prod.ext_iff]

/-- The answer is yes exactly for the texts of words that the start symbol derives. -/
lemma WellFormed.derives_eq_true_iff (hg : g.WellFormed) {text : String} :
    g.derives text = .ok true ↔
      ∃ s w, g.start = some s ∧ g.readWord text.toList = .ok w ∧
        Derives g.rules.toList s w := by
  constructor
  · intro h
    obtain ⟨s, c, hq, hderives⟩ := derives_eq_ok_true_iff.1 h
    obtain ⟨w, hw, hs, -, rfl⟩ := startAndChart_eq_ok_iff.1 hq
    exact ⟨s, w, hs, hw, Chart.derives_ofWord_iff.1 hderives⟩
  · rintro ⟨s, w, hs, hw, hd⟩
    obtain ⟨b, hb⟩ := hd.exists_rule
    have hr : 0 < g.ruleCount := List.length_pos_of_mem hb
    have hq : g.startAndChart text = .ok (s, Chart.ofWord g.rules.toList w) :=
      startAndChart_eq_ok_iff.2 ⟨w, hw, hs, hg.isEmpty_eq_false hs hr, rfl⟩
    rw [derives_of_startAndChart hq, Chart.derives_ofWord_iff.2 hd]

/-! ### Queries about derived words -/

/-- Derived words are made of declared letters. -/
lemma WellFormed.terminal_of_derives (hg : g.WellFormed) (h : Derives g.rules.toList a w) :
    ∀ t ∈ w, t ∈ g.terminals := by
  induction h using Derives.induct with
  | unit a t hrule =>
    intro t' ht'
    rw [List.mem_singleton.1 ht']
    exact hg.letter_mem a t hrule
  | binary a b c u v hrule _ _ ihu ihv =>
    intro t ht
    rcases List.mem_append.1 ht with ht | ht
    · exact ihu t ht
    · exact ihv t ht

/-- The text of a derived word is read back. -/
lemma WellFormed.readWord_of_derives (hg : g.WellFormed) (h : Derives g.rules.toList a w) :
    g.readWord (wordText w).toList = .ok w :=
  readWord_wordText (hg.terminal_of_derives h)

/-- A query about a word that some nonterminal derives finds the nonterminal. -/
lemma WellFormed.exists_chart_of_derives (hg : g.WellFormed) (hs : g.start = some s)
    (h : Derives g.rules.toList a w) :
    ∃ chart, g.chart (wordText w) = .ok chart ∧ chart.derives a = true := by
  obtain ⟨b, hb⟩ := h.exists_rule
  have hr : 0 < g.ruleCount := List.length_pos_of_mem hb
  have hquery := hg.startAndChart_wordText hs hr (hg.terminal_of_derives h)
  exact ⟨_, chart_of_startAndChart hquery, Chart.derives_ofWord_iff.2 h⟩

/-- The query about a word that the start symbol derives is answered by yes. -/
lemma WellFormed.derives_wordText (hg : g.WellFormed) (hs : g.start = some s)
    (h : Derives g.rules.toList s w) : g.derives (wordText w) = .ok true :=
  hg.derives_eq_true_iff.2 ⟨s, w, hs, hg.readWord_of_derives h, h⟩

/-! ### Exact charts -/

/-- **Charts are exact, and queries answer whether the start symbol derives the word.** -/
theorem chart_exact_and_membership_iff (hg : g.Reachable) (hs : g.start = some s)
    (hr : 0 < g.ruleCount) (hw : ∀ t ∈ w, t ∈ g.terminals) :
    ∃ chart : Chart, g.chart (wordText w) = .ok chart ∧
      (∀ i j, i ≤ j → j < w.length → ∃ cell, chart.get? i j = some cell ∧
        ∀ a, a ∈ cell ↔ Derives g.rules.toList a (factor w i j)) ∧
      g.membership (wordText w) = .ok (chart.derives s, chart) ∧
      g.derives (wordText w) = .ok (chart.derives s) ∧
      (chart.derives s = true ↔ Derives g.rules.toList s w) ∧
      (w = [] → g.derives (wordText w) = .ok false) := by
  have hquery := hg.wellFormed.startAndChart_wordText hs hr hw
  refine ⟨Chart.ofWord g.rules.toList w, chart_of_startAndChart hquery, ?_,
    membership_of_startAndChart hquery, derives_of_startAndChart hquery,
    Chart.derives_ofWord_iff, ?_⟩
  · intro i j hij hj
    exact Chart.ofWord_exact hij hj
  · rintro rfl
    rw [derives_of_startAndChart hquery, Except.ok.injEq, Bool.eq_false_iff, ne_eq,
      Chart.derives_ofWord_iff]
    exact fun h => h.ne_nil rfl

/-- A pair of brackets in a pair of brackets. -/
def brackets.nested : List Terminal :=
  [⟨'l', by decide⟩, ⟨'l', by decide⟩, ⟨'r', by decide⟩, ⟨'r', by decide⟩]

/-- The grammar of brackets derives nested brackets, and the pair inside has the cell that it
should have. -/
theorem chart_exact_of_nested_brackets :
    brackets.Reachable ∧ brackets.start = some brackets.balanced ∧ 0 < brackets.ruleCount ∧
      (∀ t ∈ brackets.nested, t ∈ brackets.terminals) ∧
      Derives brackets.rules.toList brackets.balanced brackets.nested ∧
      ∃ chart, brackets.chart (wordText brackets.nested) = .ok chart ∧
        ∃ cell, chart.get? 1 2 = some cell ∧
          ∀ a, a ∈ cell ↔ Derives brackets.rules.toList a (factor brackets.nested 1 2) := by
  have hr : 0 < brackets.ruleCount := by decide
  have hw : ∀ t ∈ brackets.nested, t ∈ brackets.terminals := by decide
  have hanswer : brackets.derives (wordText brackets.nested) = .ok true := by decide +kernel
  obtain ⟨chart, hchart, hcells, -, hderives, hiff, -⟩ :=
    chart_exact_and_membership_iff reachable_brackets start_brackets hr hw
  rw [hanswer, Except.ok.injEq] at hderives
  exact ⟨reachable_brackets, start_brackets, hr, hw, hiff.1 hderives.symm, chart, hchart,
    hcells 1 2 (by decide) (by decide)⟩

end Grammar

end ChomskyGrammar
