/-
# The cells of a chart

A cell of the chart of a word holds exactly the nonterminals that derive its factor
(`ofWord_exact`).  The cells are filled in by ascending length of their factors, and from
left to right among those of one length.  What is kept on the way is that the cells filled
in so far are exact; as the content of a cell is computed from cells of shorter factors
only, the next one is exact too (`mem_cellAt`).
-/
import ChomskyGrammar.Proofs.Recognition.Factor
import ChomskyGrammar.Recognition.Chart

namespace ChomskyGrammar

namespace Chart

variable {rules : List Rule} {w : List Terminal} {chart : Chart} {a : Nonterminal}
  {d i j m n : Nat}

/-- Whether the cell `(i, j)` of a chart is there and holds the nonterminals that derive the
factor from `i` to `j`, and no others. -/
def ExactAt (rules : List Rule) (w : List Terminal) (chart : Chart) (i j : Nat) : Prop :=
  ∃ cell, chart.get? i j = some cell ∧ ∀ a, a ∈ cell ↔ Derives rules a (factor w i j)

/-- Whether a chart of a word is filled in with all factors of at most `d` letters, and with
the factors of `d + 1` letters that start before position `m`. -/
structure Filled (rules : List Rule) (w : List Terminal) (d m : Nat) (chart : Chart) : Prop where
  /-- There is a row for every letter. -/
  side_eq : chart.side = w.length
  /-- The cells filled in so far are exact. -/
  exact : ∀ i j, i ≤ j → j < w.length → j < i + d ∨ j = i + d ∧ i < m →
    ExactAt rules w chart i j

/-! ### The content of one cell -/

lemma mem_splitHeads {k : Nat} :
    a ∈ splitHeads (.ofRules rules) chart i k j ↔
      ∃ left right, chart.get? i k = some left ∧ chart.get? (k + 1) j = some right ∧
        ∃ b c, (⟨a, .binary b c⟩ : Rule) ∈ rules ∧ b ∈ left ∧ c ∈ right := by
  rw [splitHeads]
  constructor
  · intro h
    split at h
    · rename_i left right hleft hright
      exact ⟨left, right, hleft, hright, mem_pairHeads.1 h⟩
    · exact absurd h (by simp)
  · rintro ⟨left, right, hleft, hright, h⟩
    rw [hleft, hright]
    exact mem_pairHeads.2 h

/-- A split with two exact cells contributes the heads of the binary rules whose halves
derive its two sides. -/
lemma mem_splitHeads_of_exactAt {k : Nat} (hleft : ExactAt rules w chart i k)
    (hright : ExactAt rules w chart (k + 1) j) :
    a ∈ splitHeads (.ofRules rules) chart i k j ↔
      ∃ b c, (⟨a, .binary b c⟩ : Rule) ∈ rules ∧ Derives rules b (factor w i k) ∧
        Derives rules c (factor w (k + 1) j) := by
  obtain ⟨left, hl, hleft⟩ := hleft
  obtain ⟨right, hr, hright⟩ := hright
  rw [mem_splitHeads]
  constructor
  · rintro ⟨left', right', hl', hr', b, c, hrule, hb, hc⟩
    obtain rfl : left = left' := Option.some.inj (hl.symm.trans hl')
    obtain rfl : right = right' := Option.some.inj (hr.symm.trans hr')
    exact ⟨b, c, hrule, (hleft b).1 hb, (hright c).1 hc⟩
  · rintro ⟨b, c, hrule, hb, hc⟩
    exact ⟨left, right, hl, hr, b, c, hrule, (hleft b).2 hb, (hright c).2 hc⟩

lemma mem_cellAt_self (hi : i < w.length) :
    a ∈ cellAt (.ofRules rules) w chart i i ↔ Derives rules a (factor w i i) := by
  rw [factor_self hi, derives_singleton_iff]
  simp [cellAt, hi, RuleIndex.mem_unitHeads]

lemma mem_cellAt_of_lt (hij : i < j) :
    a ∈ cellAt (.ofRules rules) w chart i j ↔
      ∃ k, i ≤ k ∧ k < j ∧ a ∈ splitHeads (.ofRules rules) chart i k j := by
  rw [cellAt, if_neg (Nat.ne_of_lt hij), SortedSet.mem_ofList, List.mem_flatMap]
  constructor
  · rintro ⟨d, hd, h⟩
    rw [List.mem_range] at hd
    exact ⟨i + d, by omega, by omega, h⟩
  · rintro ⟨k, hik, hkj, h⟩
    refine ⟨k - i, List.mem_range.2 (by omega), ?_⟩
    rw [show i + (k - i) = k by omega]
    exact h

/-- **The next cell is computed exactly.** -/
theorem mem_cellAt (h : Filled rules w d m chart) (hm : m + d < w.length) :
    a ∈ cellAt (.ofRules rules) w chart m (m + d) ↔ Derives rules a (factor w m (m + d)) := by
  cases d with
  | zero => exact mem_cellAt_self hm
  | succ d =>
    rw [mem_cellAt_of_lt (by omega), derives_factor_iff (by omega) hm]
    -- Both sides range over the same splits, and the cells of a split are filled in.
    have hsplit : ∀ k, m ≤ k → k < m + (d + 1) →
        (a ∈ splitHeads (.ofRules rules) chart m k (m + (d + 1)) ↔
          ∃ b c, (⟨a, .binary b c⟩ : Rule) ∈ rules ∧ Derives rules b (factor w m k) ∧
            Derives rules c (factor w (k + 1) (m + (d + 1)))) := by
      intro k hmk hk
      refine mem_splitHeads_of_exactAt (h.exact m k hmk (by omega) (.inl (by omega))) ?_
      exact h.exact (k + 1) (m + (d + 1)) (by omega) hm (.inl (by omega))
    constructor
    · rintro ⟨k, hmk, hk, hmem⟩
      exact ⟨k, hmk, hk, (hsplit k hmk hk).1 hmem⟩
    · rintro ⟨k, hmk, hk, hrule⟩
      exact ⟨k, hmk, hk, (hsplit k hmk hk).2 hrule⟩

/-! ### Filling in -/

lemma ExactAt.set {i' j' : Nat} {cell : Cell} (hij : i ≤ j) (hj : j < chart.side)
    (hcell : ∀ a, a ∈ cell ↔ Derives rules a (factor w i j)) (h : (i = i' ∧ j = j') ∨
      ExactAt rules w chart i' j') : ExactAt rules w (chart.set i j cell) i' j' := by
  by_cases heq : i = i' ∧ j = j'
  · obtain ⟨rfl, rfl⟩ := heq
    exact ⟨cell, Triangle.get?_set_self hij hj, hcell⟩
  · obtain ⟨cell', hget, hcell'⟩ := h.resolve_left heq
    exact ⟨cell', (Triangle.get?_set_ne heq).trans hget, hcell'⟩

/-- One more cell is filled in. -/
lemma Filled.set (h : Filled rules w d m chart) (hm : m + d < w.length) :
    Filled rules w d (m + 1) (chart.set m (m + d) (cellAt (.ofRules rules) w chart m (m + d))) where
  side_eq := by rw [Triangle.side_set, h.side_eq]
  exact i j hij hj hfilled := by
    refine ExactAt.set (by omega) (by rw [h.side_eq]; exact hm) (fun a => mem_cellAt h hm) ?_
    by_cases heq : m = i ∧ m + d = j
    · exact .inl heq
    · exact .inr (h.exact i j hij hj (by omega))

/-- Fills in the cells of the factors of `d + 1` letters that start before position `m`. -/
def fillRow (rules : List Rule) (w : List Terminal) (d m : Nat) (chart : Chart) : Chart :=
  (List.range m).foldl
    (fun chart i => chart.set i (i + d) (cellAt (.ofRules rules) w chart i (i + d))) chart

lemma Filled.fillRow (h : Filled rules w d 0 chart) (hm : m ≤ w.length - d) :
    Filled rules w d m (fillRow rules w d m chart) := by
  induction m with
  | zero => exact h
  | succ m ih =>
    have hprev := ih (by omega)
    rw [Chart.fillRow, List.range_succ, List.foldl_append]
    exact hprev.set (by omega)

/-- When all factors of `d + 1` letters are filled in, those of `d + 2` letters are next. -/
lemma Filled.succ (h : Filled rules w d (w.length - d) chart) : Filled rules w (d + 1) 0 chart where
  side_eq := h.side_eq
  exact i j hij hj hfilled := h.exact i j hij hj (by omega)

lemma filled_replicate : Filled rules w 0 0 (Triangle.replicate w.length .empty) where
  side_eq := rfl
  exact i j hij hj hfilled := by omega

lemma filled_foldl (rules : List Rule) (w : List Terminal) (n : Nat) :
    Filled rules w n 0 ((List.range n).foldl (fun chart d => fillRow rules w d (w.length - d) chart)
      (Triangle.replicate w.length .empty)) := by
  induction n with
  | zero => exact filled_replicate
  | succ n ih =>
    rw [List.range_succ, List.foldl_append]
    exact (ih.fillRow (Nat.le_refl _)).succ

lemma ofWord_eq_foldl (rules : List Rule) (w : List Terminal) :
    ofWord rules w =
      (List.range w.length).foldl (fun chart d => fillRow rules w d (w.length - d) chart)
        (Triangle.replicate w.length .empty) := by
  simp only [ofWord, fillOrder, fillRow, List.foldl_flatMap, List.foldl_map]

/-- **Every cell of the chart of a word is exact.** -/
theorem ofWord_exact (hij : i ≤ j) (hj : j < w.length) : ExactAt rules w (ofWord rules w) i j := by
  rw [ofWord_eq_foldl]
  exact (filled_foldl rules w w.length).exact i j hij hj (.inl (by omega))

lemma side_ofWord (rules : List Rule) (w : List Terminal) : (ofWord rules w).side = w.length := by
  rw [ofWord_eq_foldl]
  exact (filled_foldl rules w w.length).side_eq

/-- A chart answers whether a nonterminal derives its word. -/
theorem derives_ofWord_iff : (ofWord rules w).derives a = true ↔ Derives rules a w := by
  cases hw : w with
  | nil =>
    -- An empty chart has no corner, and the empty word is not derived.
    have hcorner : (ofWord rules []).corner? = none :=
      Triangle.get?_eq_none_iff.2 (.inr (by simp [side_ofWord]))
    simp only [derives, hcorner, Option.any_none, Bool.false_eq_true, false_iff]
    exact fun h => h.ne_nil rfl
  | cons t ts =>
    have hlen : 0 < w.length := by simp [hw]
    have hexact : ExactAt rules w (ofWord rules w) 0 (w.length - 1) :=
      ofWord_exact (by omega) (by omega)
    obtain ⟨cell, hget, hcell⟩ := hexact
    have hcorner : (ofWord rules w).corner? = some cell := by
      rw [Triangle.corner?, side_ofWord, hget]
    rw [← hw, derives, hcorner, Option.any_some, decide_eq_true_iff, hcell, factor_zero]

end Chart

end ChomskyGrammar
