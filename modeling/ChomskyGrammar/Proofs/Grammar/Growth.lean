/-
# A larger grammar answers no less

A grammar that has all symbols and rules of another one, and the same start symbol, subsumes it
(`IsPartOf.subsumes`).  Nothing is found out from the absence of a rule: a cell of a chart holds
what the rules derive, a body is admitted for what is declared and has rules, and a length is the
least of the lengths of derived words.  So a query that was answered is answered, each cell of a
chart has at least the members that it had, a rule that could be added can be added, and no
shortest word gets longer.

Edits that only add something lead to such a grammar (`growth_is_monotone`).  If they only declare
symbols, then what was there before is answered just as it was.
-/
import ChomskyGrammar.Proofs.Generation.RandomWords
import ChomskyGrammar.Proofs.Grammar.DumpReading
import ChomskyGrammar.Proofs.Recognition.Refusals

namespace ChomskyGrammar

/-! ### More rules -/

namespace Chart

/-- Whether a chart has the cells of another one, each with all of its members. -/
structure IsPartOf (chart chart' : Chart) : Prop where
  side_eq : chart'.side = chart.side
  cells : ∀ i j cell, chart.get? i j = some cell →
    ∃ cell', chart'.get? i j = some cell' ∧ ∀ a ∈ cell, a ∈ cell'

variable {rules rules' : List Rule} {w : List Terminal}

/-- A cell holds what the rules derive, so more rules leave nothing out of it. -/
lemma isPartOf_ofWord (h : ∀ r ∈ rules, r ∈ rules') (w : List Terminal) :
    (ofWord rules w).IsPartOf (ofWord rules' w) where
  side_eq := by rw [side_ofWord, side_ofWord]
  cells i j cell hget := by
    have hplace : ¬(j < i ∨ w.length ≤ j) := by
      rw [← side_ofWord rules w, ← Triangle.get?_eq_none_iff, hget]
      exact Option.some_ne_none cell
    obtain ⟨hij, hj⟩ : i ≤ j ∧ j < w.length := by omega
    have hexact : ExactAt rules w (ofWord rules w) i j := ofWord_exact hij hj
    have hexact' : ExactAt rules' w (ofWord rules' w) i j := ofWord_exact hij hj
    obtain ⟨cell₁, hget₁, hcell⟩ := hexact
    obtain ⟨cell', hget', hcell'⟩ := hexact'
    -- Both cells are exact, and what fewer rules derive is derived by more rules as well.
    obtain rfl := Option.some.inj (hget.symm.trans hget₁)
    exact ⟨cell', hget', fun a ha => (hcell' a).2 (((hcell a).1 ha).mono h)⟩

end Chart

/-- More rules give no nonterminal a longer shortest word. -/
lemma ShortestYields.exists_get?_le {rules rules' : List Rule} {a : Nonterminal} {n : Nat}
    (ys : ShortestYields rules) (ys' : ShortestYields rules') (h : ∀ r ∈ rules, r ∈ rules')
    (hn : ys.yields.get? a = some n) : ∃ n' ≤ n, ys'.yields.get? a = some n' := by
  obtain ⟨w, hw, hwn⟩ := ys.exists_derives_of_yield hn
  obtain ⟨n', hn', hle⟩ := ys'.exists_yield_le_of_derives (hw.mono h)
  exact ⟨n', hle.trans hwn, hn'⟩

namespace Grammar

variable {g g' : Grammar} {es : List Edit} {c : Char} {body text : String}

/-! ### More symbols and rules -/

lemma IsPartOf.readWord {cs : List Char} {w : List Terminal} (h : g.IsPartOf g')
    (hw : g.readWord cs = .ok w) : g'.readWord cs = .ok w := by
  obtain ⟨hchars, hmem⟩ := readWord_eq_ok_iff.1 hw
  exact readWord_eq_ok_iff.2 ⟨hchars, fun t ht => h.mem_terminals t (hmem t ht)⟩

lemma IsPartOf.isEmpty_eq_false (h : g.IsPartOf g') (hg : g.isEmpty = false) :
    g'.isEmpty = false := by
  simp only [isEmpty, SortedSet.isEmpty, Bool.or_eq_false_iff, List.isEmpty_eq_false_iff_exists_mem]
    at hg ⊢
  obtain ⟨⟨a, ha⟩, r, hr⟩ := hg
  exact ⟨⟨a, h.mem_nonterminals a ha⟩, r, h.mem_rules r hr⟩

lemma IsPartOf.admits {b : Body} (h : g.IsPartOf g') (hb : g.Admits b) : g'.Admits b := by
  cases b with
  | binary b c => exact ⟨h.mem_heads hb.1, h.mem_heads hb.2⟩
  | unit t => exact h.mem_terminals t hb

/-- A rule that could be added can be added. -/
lemma IsPartOf.exists_addRule (h : g.IsPartOf g') {g₁ : Grammar}
    (hok : g.addRule c body = .ok g₁) : ∃ g₂, g'.addRule c body = .ok g₂ := by
  obtain ⟨r, hhead, hbody, hmem, hadmits, -⟩ := addRule_eq_ok_iff.1 hok
  exact ⟨_, addRule_eq_ok_iff.2
    ⟨r, hhead, hbody, h.mem_nonterminals _ hmem, h.admits hadmits, rfl⟩⟩

/-- Behind a query that was answered there is the chart of the same word. -/
lemma IsPartOf.startAndChart (h : g.IsPartOf g') (hs : g'.start = g.start) {a : Nonterminal}
    {chart : Chart} (hok : g.startAndChart text = .ok (a, chart)) :
    ∃ w, chart = Chart.ofWord g.rules.toList w ∧
      g'.startAndChart text = .ok (a, Chart.ofWord g'.rules.toList w) := by
  obtain ⟨w, hw, hstart, hempty, rfl⟩ := startAndChart_eq_ok_iff.1 hok
  exact ⟨w, rfl, startAndChart_eq_ok_iff.2
    ⟨w, h.readWord hw, hs.trans hstart, h.isEmpty_eq_false hempty, rfl⟩⟩

/-! ### Growth -/

/-- Whether a grammar answers what another one answers, and finds no less. -/
structure Subsumes (g' g : Grammar) : Prop where
  /-- The chart of a word is there if it was, and no cell has lost a member. -/
  chart : ∀ text chart, g.chart text = .ok chart →
    ∃ chart', g'.chart text = .ok chart' ∧ chart.IsPartOf chart'
  derives : ∀ text, g.derives text = .ok true → g'.derives text = .ok true
  addRule : ∀ c body g₁, g.addRule c body = .ok g₁ → ∃ g₂, g'.addRule c body = .ok g₂
  /-- However the rules are listed, no shortest word is longer, if no length gets too large. -/
  yield : ∀ rules rules' ys ys', (∀ r, r ∈ rules ↔ r ∈ g.rules) →
    (∀ r, r ∈ rules' ↔ r ∈ g'.rules) → ShortestYields.compute? rules = some ys →
      ShortestYields.compute? rules' = some ys' → ∀ a n, ys.yields.get? a = some n →
        ∃ n' ≤ n, ys'.yields.get? a = some n'

/-- **A grammar with all symbols and rules of another one subsumes it.** -/
theorem IsPartOf.subsumes (h : g.IsPartOf g') (hs : g'.start = g.start) : g'.Subsumes g where
  chart text chart hchart := by
    obtain ⟨a, hok⟩ := chart_eq_ok_iff.1 hchart
    obtain ⟨w, rfl, hok'⟩ := h.startAndChart hs hok
    exact ⟨_, chart_eq_ok_iff.2 ⟨a, hok'⟩, Chart.isPartOf_ofWord h.mem_rules w⟩
  derives text hderives := by
    obtain ⟨a, chart, hok, ha⟩ := derives_eq_ok_true_iff.1 hderives
    obtain ⟨w, rfl, hok'⟩ := h.startAndChart hs hok
    refine derives_eq_ok_true_iff.2 ⟨a, _, hok', Chart.derives_ofWord_iff.2 ?_⟩
    exact (Chart.derives_ofWord_iff.1 ha).mono h.mem_rules
  addRule c body g₁ := h.exists_addRule
  yield rules rules' ys ys' hrules hrules' _ _ a n hn :=
    ys.exists_get?_le ys' (fun r hr => (hrules' r).2 (h.mem_rules r ((hrules r).1 hr))) hn

/-- Whether a grammar shows what another one shows: the same dump, each chart that the other one
has, and the same lengths of shortest words. -/
structure Repeats (g' g : Grammar) : Prop where
  dump : g'.dump = g.dump
  chart : ∀ text chart, g.chart text = .ok chart → g'.chart text = .ok chart
  yield : ∀ rules rules' ys ys', (∀ r, r ∈ rules ↔ r ∈ g.rules) →
    (∀ r, r ∈ rules' ↔ r ∈ g'.rules) → ShortestYields.compute? rules = some ys →
      ShortestYields.compute? rules' = some ys' → ∀ a, ys'.yields.get? a = ys.yields.get? a

/-- With the same rules, what was answered is answered as it was. -/
lemma IsPartOf.repeats (h : g.IsPartOf g') (hs : g'.start = g.start) (hr : g'.rules = g.rules) :
    g'.Repeats g where
  dump := dump_eq_iff.2 hr
  chart text chart hchart := by
    obtain ⟨a, hok⟩ := chart_eq_ok_iff.1 hchart
    obtain ⟨w, rfl, hok'⟩ := h.startAndChart hs hok
    exact chart_eq_ok_iff.2 ⟨a, hr ▸ hok'⟩
  yield rules rules' ys ys' hrules hrules' _ _ a :=
    ys'.get?_eq_of_mem_iff ys (fun r => by rw [hrules, hrules', hr]) a

/-- **Growth is monotone.**  After edits that only add symbols and rules, a grammar subsumes what it
was before: all words with a chart have one, and no cell of it has lost a member; derived words are
derived; rules that could be added can be added; and no shortest word gets longer.  If the edits
only declare symbols, the dump, the charts of words that had one and the lengths of shortest words
are exactly what they were. -/
theorem growth_is_monotone (hes : ∀ e ∈ es, e.grows = true) :
    (es.foldl attempt g).Subsumes g ∧
      ((∀ e ∈ es, e.declares = true) → (es.foldl attempt g).Repeats g) := by
  have hpart : g.IsPartOf (es.foldl attempt g) :=
    isPartOf_foldl_attempt fun hreset => Edit.ne_reset_of_grows (hes _ hreset) rfl
  have hstart := start_foldl_attempt (g := g) hes
  exact ⟨hpart.subsumes hstart,
    fun hdeclares => hpart.repeats hstart (rules_foldl_attempt hdeclares)⟩

/-- Nested brackets are derived after `x` has become a word, too, and to declare `x` alone leaves
the dump as it is. -/
theorem larger_brackets_subsume_brackets :
    let declaration := [Edit.declareTerminal 'x']
    let addition := declaration ++ [.addRule 'S' "x", .addRule 'T' "xSx"]
    (∀ e ∈ addition, e.grows = true) ∧ (∀ e ∈ declaration, e.declares = true) ∧
      brackets.derives "llrr" = .ok true ∧
      (addition.foldl attempt brackets).derives "llrr" = .ok true ∧
      (declaration.foldl attempt brackets).dump = brackets.dump := by
  intro declaration addition
  have hdeclares : ∀ e ∈ declaration, e.declares = true := by decide
  have hgrows : ∀ e ∈ addition, e.grows = true := by decide
  have hanswer : brackets.derives "llrr" = .ok true := by decide +kernel
  have hdeclaration : ∀ e ∈ declaration, e.grows = true :=
    fun e he => Edit.grows_of_declares (hdeclares e he)
  have hsubsumes := (growth_is_monotone (g := brackets) hgrows).1
  have hrepeats := (growth_is_monotone (g := brackets) hdeclaration).2 hdeclares
  exact ⟨hgrows, hdeclares, hanswer, hsubsumes.derives "llrr" hanswer, hrepeats.dump⟩

end Grammar

end ChomskyGrammar
