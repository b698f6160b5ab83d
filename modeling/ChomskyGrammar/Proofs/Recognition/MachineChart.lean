/-
# Charts filled in by a machine

A machine fills in the chart of a word with 64-bit words for all positions and an array for
all cells.  It stops when an exact result is not a word, when an array has no such element,
and when a triangle has no such cell.  While `n * (n + 1)` is a word, it never stops on a
word of `n` letters, and what it fills in is the chart (`fill_eq`).

The machine adds the heads it finds to the cell that is there.  As every cell is visited
once, the cell is still empty then, and adding to it is the same as replacing it: the
invariant `Pending` of the loops says which cells are empty.
-/
import ChomskyGrammar.Proofs.Recognition.Membership
import ChomskyGrammar.Proofs.Recognition.Placement
import ChomskyGrammar.Proofs.Text.Lines

namespace ChomskyGrammar

namespace Machine

/-! ### Tables -/

/-- A triangle in the memory of a machine: the side is a word, and nothing is known of the
number of cells. -/
structure Table (α : Type) where
  /-- The number of rows. -/
  side : UInt64
  /-- The cells, row by row. -/
  cells : Array α

namespace Table

variable {α : Type}

/-- The table with the same value in every cell. -/
def new (n : UInt64) (a : α) : Except Trap (Table α) := do
  let size ← area n
  return ⟨n, Array.replicate size.toNat a⟩

/-- The element of the array at a place. -/
def element (m : Table α) (k : UInt64) : Except Trap α :=
  match m.cells[k.toNat]? with
  | some a => .ok a
  | none => .error .bounds

/-- The value of the cell `(i, j)`, if there is such a cell. -/
def cell? (m : Table α) (i j : UInt64) : Except Trap (Option α) := do
  match ← index m.side i j with
  | some k => return some (← m.element k)
  | none => return none

/-- The value of the cell `(i, j)`, which has to be there. -/
def cell (m : Table α) (i j : UInt64) : Except Trap α := do
  match ← m.cell? i j with
  | some a => return a
  | none => throw .noCell

/-- The table with the cell `(i, j)` changed, which has to be there. -/
def update (m : Table α) (i j : UInt64) (f : α → α) : Except Trap (Table α) := do
  match ← index m.side i j with
  | some k => return ⟨m.side, m.cells.setIfInBounds k.toNat (f (← m.element k))⟩
  | none => throw .noCell

/-- A triangle in the memory of a machine. -/
def ofTriangle (t : Triangle α) : Table α := ⟨UInt64.ofNat t.side, t.cells⟩

variable {n i j : UInt64} {t : Triangle α} {a : α}

lemma side_ofTriangle (ht : t.side = n.toNat) : (ofTriangle t).side = n := by
  rw [ofTriangle, ht, UInt64.ofNat_toNat]

section

variable (hn : n.toNat * (n.toNat + 1) < 2 ^ 64) (ht : t.side = n.toNat)

include hn

lemma new_eq (a : α) : new n a = .ok (ofTriangle (Triangle.replicate n.toNat a)) := by
  obtain ⟨size, hok, hsize⟩ := exists_area hn
  rw [new, hok]
  simp [ofTriangle, Triangle.replicate, bind, Except.bind, pure, Except.pure, hsize]

include ht

/-- The place of a cell is computed, and it is inside the array. -/
lemma exists_place (h : t.get? i.toNat j.toNat = some a) :
    ∃ k, index (ofTriangle t).side i j = .ok (some k) ∧
      Triangle.index? t.side i.toNat j.toNat = some k.toNat ∧ (ofTriangle t).element k = .ok a := by
  rw [Triangle.get?, Option.bind_eq_some_iff] at h
  obtain ⟨place, hplace, ha⟩ := h
  have hlt : place < 2 ^ 64 := (ht ▸ Triangle.index?_lt hplace).trans (area_lt hn)
  obtain ⟨k, rfl⟩ := exists_toNat_eq hlt
  refine ⟨k, ?_, hplace, ?_⟩
  · rw [side_ofTriangle ht, index_eq_some_iff hn, ← ht]
    exact hplace
  · simp [element, ofTriangle, ha]

lemma cell?_eq : (ofTriangle t).cell? i j = .ok (t.get? i.toNat j.toNat) := by
  cases h : t.get? i.toNat j.toNat with
  | none =>
    have hout : j < i ∨ n ≤ j := by
      rwa [Triangle.get?_eq_none_iff, ht, ← UInt64.lt_iff_toNat_lt, ← UInt64.le_iff_toNat_le] at h
    rw [cell?, side_ofTriangle ht, index_of_outside hout]
    rfl
  | some a =>
    obtain ⟨k, hindex, -, helement⟩ := exists_place hn ht h
    exact bind_eq_ok_iff.2 ⟨some k, hindex, bind_eq_ok_iff.2 ⟨a, helement, rfl⟩⟩

lemma cell_eq (h : t.get? i.toNat j.toNat = some a) : (ofTriangle t).cell i j = .ok a := by
  rw [cell, cell?_eq hn ht, h]
  rfl

lemma update_eq (h : t.get? i.toNat j.toNat = some a) (f : α → α) :
    (ofTriangle t).update i j f = .ok (ofTriangle (t.set i.toNat j.toNat (f a))) := by
  obtain ⟨k, hindex, hplace, helement⟩ := exists_place hn ht h
  refine bind_eq_ok_iff.2 ⟨some k, hindex, bind_eq_ok_iff.2 ⟨a, helement, ?_⟩⟩
  rw [Triangle.set, hplace]
  rfl

omit ht

/-- **A change of one cell changes no other cell.** -/
theorem exists_update {m : Table α} (hside : m.side = n)
    (hsize : m.cells.size = Triangle.area n.toNat) (hij : i ≤ j) (hj : j < n) (f : α → α) :
    ∃ a m', m.cell? i j = .ok (some a) ∧ m.update i j f = .ok m' ∧
      m'.side = n ∧ m'.cells.size = m.cells.size ∧
      ∀ i' j', m'.cell? i' j' = if i = i' ∧ j = j' then .ok (some (f a)) else m.cell? i' j' := by
  -- A table with as many cells as it should have is that of a triangle.
  obtain ⟨t, ht, rfl⟩ : ∃ t : Triangle α, t.side = n.toNat ∧ m = ofTriangle t := by
    refine ⟨⟨n.toNat, m.cells, hsize⟩, rfl, ?_⟩
    obtain ⟨side, cells⟩ := m
    obtain rfl : side = n := hside
    simp [ofTriangle]
  have hij' := UInt64.le_iff_toNat_le.1 hij
  have hj' : j.toNat < t.side := ht ▸ UInt64.lt_iff_toNat_lt.1 hj
  obtain ⟨a, hget⟩ := Triangle.exists_get? hij' hj'
  have hset : (t.set i.toNat j.toNat (f a)).side = n.toNat := (Triangle.side_set ..).trans ht
  refine ⟨a, _, ?_, update_eq hn ht hget f, ?_, ?_, fun i' j' => ?_⟩
  · rw [cell?_eq hn ht, hget]
  · exact side_ofTriangle hset
  · exact (Triangle.size_cells _).trans (hset ▸ hsize.symm)
  · rw [cell?_eq hn hset, cell?_eq hn ht, Triangle.get?_set hij' hj']
    simp only [UInt64.toNat_inj]
    split <;> rfl

end

end Table

/-! ### Loops -/

/-- The words from `a` up to `b`, without `b`. -/
def between (a b : UInt64) : List UInt64 :=
  (List.range' a.toNat (b.toNat - a.toNat)).map UInt64.ofNat

/-- The words from `a` up to `b`, and `b` itself. -/
def upTo (a b : UInt64) : List UInt64 :=
  (List.range' a.toNat (b.toNat + 1 - a.toNat)).map UInt64.ofNat

/-- A loop over words does with a table what a loop over numbers does with a triangle, if each
of its rounds does and what a round relies on is kept. -/
lemma foldlM_words {α : Type} {f : Table α → UInt64 → Except Trap (Table α)}
    {g : Triangle α → Nat → Triangle α} {P : Nat → Triangle α → Prop} {a m : Nat}
    {t : Triangle α} (hfit : a + m ≤ 2 ^ 64)
    (hround : ∀ k : UInt64, a ≤ k.toNat → k.toNat < a + m → ∀ t, P k.toNat t →
      f (.ofTriangle t) k = .ok (.ofTriangle (g t k.toNat)) ∧ P (k.toNat + 1) (g t k.toNat))
    (h : P a t) :
    ((List.range' a m).map UInt64.ofNat).foldlM f (.ofTriangle t) =
        .ok (.ofTriangle ((List.range' a m).foldl g t)) ∧
      P (a + m) ((List.range' a m).foldl g t) := by
  induction m with
  | zero => exact ⟨rfl, h⟩
  | succ m ih =>
    obtain ⟨hloop, hP⟩ := ih (by omega) fun k hak hk => hround k hak (by omega)
    obtain ⟨k, hk⟩ := exists_toNat_eq (v := a + m) (by omega)
    obtain ⟨hf, hP⟩ := hround k (by omega) (by omega) _ (hk ▸ hP)
    have hword : UInt64.ofNat (a + m) = k := by rw [← hk, UInt64.ofNat_toNat]
    rw [hk] at hf hP
    rw [List.range'_1_concat, List.map_append, List.foldlM_append, hloop, List.foldl_append]
    exact ⟨by simp [bind, Except.bind, pure, Except.pure, hword, hf], hP⟩

/-! ### The loops of a chart -/

/-- The letter of a word at a position. -/
def letter (word : List Terminal) (i : UInt64) : Except Trap Terminal :=
  match word[i.toNat]? with
  | some t => .ok t
  | none => .error .bounds

/-- Adds the heads that derive the letter at position `i` to its cell. -/
def fillLetter (ix : RuleIndex) (word : List Terminal) (m : Table Cell) (i : UInt64) :
    Except Trap (Table Cell) := do
  let t ← letter word i
  m.update i i (·.insertAll (ix.unitHeads t))

/-- The heads that derive the factor from `i` to `j` by a split after position `k`. -/
def splitHeads (ix : RuleIndex) (m : Table Cell) (i j k : UInt64) :
    Except Trap (List Nonterminal) := do
  let left ← m.cell i k
  let right ← m.cell (← add k 1) j
  return Chart.pairHeads ix left right

/-- Adds the heads that derive the factor of `span` letters from position `i` on to its cell. -/
def fillFactor (ix : RuleIndex) (span : UInt64) (m : Table Cell) (i : UInt64) :
    Except Trap (Table Cell) := do
  let j ← sub (← add i span) 1
  let found ← (between i j).mapM (splitHeads ix m i j)
  m.update i j (·.insertAll found.flatten)

/-- Adds the heads that derive the factors of `span` letters to their cells. -/
def fillSpan (ix : RuleIndex) (n : UInt64) (m : Table Cell) (span : UInt64) :
    Except Trap (Table Cell) := do
  (upTo 0 (← sub n span)).foldlM (fillFactor ix span) m

/-- The chart of a word: first the cells of its letters, then those of longer factors by
ascending length. -/
def fill (rules : List Rule) (word : List Terminal) : Except Trap (Table Cell) := do
  let ix := RuleIndex.ofRules rules
  let n ← fit word.length
  let letters ← (between 0 n).foldlM (fillLetter ix word) (← Table.new n .empty)
  (upTo 2 n).foldlM (fillSpan ix n) letters

/-! ### One cell after the other -/

variable {rules : List Rule} {w : List Terminal} {chart : Chart} {d m : Nat}

/-- The chart with one more cell filled in, that of the factor of `d + 1` letters from position `i`
on. -/
def fillCell (rules : List Rule) (w : List Terminal) (d : Nat) (chart : Chart) (i : Nat) : Chart :=
  chart.set i (i + d) (Chart.cellAt (.ofRules rules) w chart i (i + d))

lemma fillRow_eq : Chart.fillRow rules w d m chart =
    (List.range' 0 m).foldl (fillCell rules w d) chart := by
  rw [Chart.fillRow, List.range_eq_range']
  rfl

/-- Whether the cells of a chart that are not filled in yet are empty, when those of all factors
of at most `d` letters are filled in, and those of the factors of `d + 1` letters that start
before position `m`. -/
structure Pending (n d m : Nat) (chart : Chart) : Prop where
  /-- There is a row for every letter. -/
  side_eq : chart.side = n
  /-- The cells not filled in yet are empty. -/
  empty : ∀ i j, i ≤ j → j < n → i + d < j ∨ j = i + d ∧ m ≤ i → chart.get? i j = some .empty

namespace Pending

lemma replicate (n : Nat) : Pending n 0 0 (Triangle.replicate n .empty) where
  side_eq := rfl
  empty _ _ hij hj _ := Triangle.get?_replicate hij hj

variable {n : Nat}

lemma fillCell (h : Pending n d m chart) : Pending n d (m + 1) (fillCell rules w d chart m) where
  side_eq := (Triangle.side_set ..).trans h.side_eq
  empty i j hij hj hlater := by
    rw [Machine.fillCell, Triangle.get?_set_ne (by omega)]
    exact h.empty i j hij hj (by omega)

/-- When all factors of `d + 1` letters are filled in, those of `d + 2` letters are next. -/
lemma succ (h : Pending n d m chart) : Pending n (d + 1) 0 chart where
  side_eq := h.side_eq
  empty i j hij hj _ := h.empty i j hij hj (by omega)

end Pending

/-- The factors of one letter come first, then those of two letters and so on. -/
lemma ofWord_eq_foldl_spans (rules : List Rule) (w : List Terminal) :
    Chart.ofWord rules w =
      (List.range' 2 (w.length + 1 - 2)).foldl
        (fun chart span => Chart.fillRow rules w (span - 1) (w.length - (span - 1)) chart)
        (Chart.fillRow rules w 0 w.length (.replicate w.length .empty)) := by
  rw [Chart.ofWord_eq_foldl]
  cases hlen : w.length with
  | zero => rfl
  | succ m =>
    have hspans : List.range' 2 (m + 1 + 1 - 2) = (List.range' 1 m).map (1 + ·) := by
      rw [List.map_add_range']
      rfl
    rw [List.range_eq_range', List.range'_succ, List.foldl_cons, hspans, List.foldl_map]
    simp only [Nat.add_sub_cancel_left]
    rfl

section

variable {n i j k : UInt64} (hn : n.toNat * (n.toNat + 1) < 2 ^ 64)

include hn

lemma fillLetter_eq (hw : w.length = n.toNat) (hi : i.toNat < n.toNat)
    (h : Pending n.toNat 0 i.toNat chart) :
    fillLetter (.ofRules rules) w (.ofTriangle chart) i =
      .ok (.ofTriangle (fillCell rules w 0 chart i.toNat)) := by
  have hempty := h.empty i.toNat i.toNat (Nat.le_refl _) hi (.inr ⟨rfl, Nat.le_refl _⟩)
  have hletter : letter w i = .ok w[i.toNat] := by simp [letter, hw, hi]
  have hcell : Chart.cellAt (.ofRules rules) w chart i.toNat i.toNat =
      SortedSet.empty.insertAll ((RuleIndex.ofRules rules).unitHeads w[i.toNat]) := by
    simp [Chart.cellAt, SortedSet.ofList, hw, hi]
  simp only [fillLetter, bind_eq_ok_iff]
  refine ⟨_, hletter, ?_⟩
  rw [Table.update_eq hn h.side_eq hempty, fillCell, Nat.add_zero, hcell]

/-- A split never finds a cell missing. -/
lemma splitHeads_eq (hside : chart.side = n.toNat) (hik : i.toNat ≤ k.toNat)
    (hkj : k.toNat < j.toNat) (hj : j.toNat < chart.side) :
    splitHeads (.ofRules rules) (.ofTriangle chart) i j k =
      .ok (Chart.splitHeads (.ofRules rules) chart i.toNat k.toNat j.toNat) := by
  have hj' := j.toNat_lt
  obtain ⟨next, hnext⟩ := exists_toNat_eq (v := k.toNat + 1) (by omega)
  obtain ⟨left, hleft⟩ := Triangle.exists_get? hik (show k.toNat < chart.side by omega)
  obtain ⟨right, hright⟩ := Triangle.exists_get? (show next.toNat ≤ j.toNat by omega) hj
  simp only [splitHeads, bind_eq_ok_iff]
  refine ⟨left, Table.cell_eq hn hside hleft, next, add_eq_ok_iff.2 hnext, right,
    Table.cell_eq hn hside hright, ?_⟩
  rw [Chart.splitHeads, hleft, ← hnext, hright]
  rfl

lemma mapM_splitHeads (hside : chart.side = n.toNat) (hj : j.toNat < chart.side) :
    (between i j).mapM (splitHeads (.ofRules rules) (.ofTriangle chart) i j) =
      .ok ((List.range' i.toNat (j.toNat - i.toNat)).map fun k =>
        Chart.splitHeads (.ofRules rules) chart i.toNat k j.toNat) := by
  rw [mapM_eq_ok_iff, between, List.forall₂_map_left_iff, List.forall₂_map_right_iff,
    List.forall₂_same]
  intro k hk
  rw [List.mem_range'_1] at hk
  have hj' := j.toNat_lt
  obtain ⟨k, rfl⟩ := exists_toNat_eq (v := k) (by omega)
  rw [UInt64.ofNat_toNat]
  exact splitHeads_eq hn hside hk.1 (by omega) hj

variable {span : UInt64}

lemma fillFactor_eq (hspan : 1 < span.toNat) (hi : i.toNat + span.toNat ≤ n.toNat)
    (h : Pending n.toNat (span.toNat - 1) i.toNat chart) :
    fillFactor (.ofRules rules) span (.ofTriangle chart) i =
      .ok (.ofTriangle (fillCell rules w (span.toNat - 1) chart i.toNat)) := by
  have hn' := n.toNat_lt
  obtain ⟨stop, hstop⟩ := exists_toNat_eq (v := i.toNat + span.toNat) (by omega)
  obtain ⟨j, hj⟩ := exists_toNat_eq (v := i.toNat + (span.toNat - 1)) (by omega)
  have hsub : sub stop 1 = .ok j := by
    rw [sub_eq_ok_iff, UInt64.toNat_one]
    omega
  have hjn : j.toNat < chart.side := by
    rw [h.side_eq]
    omega
  have hempty := h.empty i.toNat j.toNat (by omega) (by omega) (.inr ⟨hj, Nat.le_refl _⟩)
  have hcell : Chart.cellAt (.ofRules rules) w chart i.toNat j.toNat =
      SortedSet.empty.insertAll ((List.range' i.toNat (j.toNat - i.toNat)).map fun k =>
        Chart.splitHeads (.ofRules rules) chart i.toNat k j.toNat).flatten := by
    rw [Chart.cellAt, if_neg (by omega), List.range'_eq_map_range, List.map_map, ← List.flatMap_def]
    rfl
  simp only [fillFactor, bind_eq_ok_iff]
  refine ⟨stop, add_eq_ok_iff.2 hstop, j, hsub, _, mapM_splitHeads hn h.side_eq hjn, ?_⟩
  rw [Table.update_eq hn h.side_eq hempty, fillCell, ← hj, hcell]

/-! ### One length after the other -/

lemma fillSpan_eq (hw : w.length = n.toNat) (hspan : 1 < span.toNat)
    (hle : span.toNat ≤ n.toNat) (h : Pending n.toNat (span.toNat - 1) 0 chart) :
    fillSpan (.ofRules rules) n (.ofTriangle chart) span =
        .ok (.ofTriangle
          (Chart.fillRow rules w (span.toNat - 1) (w.length - (span.toNat - 1)) chart)) ∧
      Pending n.toNat span.toNat 0
        (Chart.fillRow rules w (span.toNat - 1) (w.length - (span.toNat - 1)) chart) := by
  have hn' := n.toNat_lt
  obtain ⟨last, hlast⟩ := exists_toNat_eq (v := n.toNat - span.toNat) (by omega)
  have hsub : sub n span = .ok last := by
    rw [sub_eq_ok_iff]
    omega
  have hcount : last.toNat + 1 - (0 : UInt64).toNat = w.length - (span.toNat - 1) := by
    rw [UInt64.toNat_zero]
    omega
  obtain ⟨hloop, hpending⟩ := foldlM_words (a := 0) (m := w.length - (span.toNat - 1))
    (g := fillCell rules w (span.toNat - 1)) (P := fun i => Pending n.toNat (span.toNat - 1) i)
    (by omega) (fun i _ hi _ h => ⟨fillFactor_eq hn hspan (by omega) h, h.fillCell⟩) h
  rw [← fillRow_eq] at hloop hpending
  refine ⟨?_, ?_⟩
  · simp only [fillSpan, bind_eq_ok_iff]
    refine ⟨last, hsub, ?_⟩
    rw [upTo, hcount]
    exact hloop
  · have hsucc := hpending.succ
    rwa [Nat.sub_add_cancel (by omega)] at hsucc

/-- **A machine fills in the chart of a word.**  It does not stop on the way, so it finds every
cell that it reads or changes. -/
theorem fill_eq (hw : w.length = n.toNat) :
    fill rules w = .ok (.ofTriangle (Chart.ofWord rules w)) := by
  have hn' := n.toNat_lt
  obtain ⟨hletters, hpending⟩ := foldlM_words (f := fillLetter (.ofRules rules) w) (a := 0)
    (m := n.toNat) (g := fillCell rules w 0) (P := fun i => Pending n.toNat 0 i) (by omega)
    (fun i _ hi _ h => ⟨fillLetter_eq hn hw (by omega) h, h.fillCell⟩) (.replicate n.toNat)
  rw [← fillRow_eq] at hletters hpending
  obtain ⟨hspans, -⟩ := foldlM_words (f := fillSpan (.ofRules rules) n) (a := 2)
    (m := n.toNat + 1 - 2)
    (g := fun chart span => Chart.fillRow rules w (span - 1) (w.length - (span - 1)) chart)
    (P := fun span => Pending n.toNat (span - 1) 0) (by omega)
    (fun span hspan hle _ h => fillSpan_eq hn hw (by omega) (by omega) h) hpending.succ
  simp only [fill, bind_eq_ok_iff]
  refine ⟨n, fit_eq_ok_iff.2 hw.symm, _, Table.new_eq hn _, _, hletters, ?_⟩
  rw [ofWord_eq_foldl_spans, hw]
  rw [hw] at hspans
  exact hspans

/-- A query that ends well has filled in the chart of the letters of its word. -/
theorem exists_fill_of_chart {g : Grammar} {word : String} (hword : word.length = n.toNat)
    (h : g.chart word = .ok chart) :
    ∃ w, g.readWord word.toList = .ok w ∧ fill g.rules.toList w = .ok (.ofTriangle chart) := by
  obtain ⟨s, hquery⟩ := Grammar.chart_eq_ok_iff.1 h
  obtain ⟨w, hw, -, -, rfl⟩ := Grammar.startAndChart_eq_ok_iff.1 hquery
  have hlen : word.toList.length = w.length := (mapM_eq_ok_iff.1 hw).length_eq
  rw [String.length_toList] at hlen
  exact ⟨w, hw, fill_eq hn (hlen.symm.trans hword)⟩

end

/-- The machine stops on a word exactly when it cannot ask for the memory of the cells. -/
theorem exists_fill_iff :
    (∃ m, fill rules w = .ok m) ↔ w.length * (w.length + 1) < 2 ^ 64 := by
  constructor
  · rintro ⟨m, hm⟩
    simp only [fill, Table.new, bind_eq_ok_iff, fit_eq_ok_iff] at hm
    obtain ⟨n, hn, -, ⟨size, hsize, -⟩, -⟩ := hm
    exact hn ▸ (area_eq_ok_iff.1 hsize).1
  · intro h
    obtain ⟨n, hn⟩ := exists_toNat_eq (v := w.length) (Nat.lt_of_succ_lt (succ_lt_of_mul_succ_lt h))
    exact ⟨_, fill_eq (n := n) (by rwa [hn]) hn.symm⟩

/-- **Places are computed without an overflow, and charts are filled in within range.**  For a
side `n` such that `n * (n + 1)` is a word: words outside the triangle have no place; a pair inside
has the place that the natural numbers compute, which is its position row by row, and no operation
on the way stops; the places are in bijection with the numbers below `n * (n + 1) / 2`; a change of
one cell changes this cell and no other; and for every word of `n` letters, by itself or as it is
asked for in a query, every cell that is read or changed while the chart is filled in is there, and
the result is the chart. -/
theorem index_is_exact_and_accesses_are_in_range (n : UInt64)
    (hn : n.toNat * (n.toNat + 1) < 2 ^ 64) :
    (∀ i j, index n i j = .ok none ↔ j < i ∨ n ≤ j) ∧
    (∀ i j, i ≤ j → j < n → ∃ k, index n i j = .ok (some k) ∧
      Triangle.index? n.toNat i.toNat j.toNat = some k.toNat ∧
      (Triangle.rowByRow n.toNat)[k.toNat]? = some (i.toNat, j.toNat)) ∧
    Set.BijOn (fun p : UInt64 × UInt64 => index n p.1 p.2) {p | p.1 ≤ p.2 ∧ p.2 < n}
      ((fun k => .ok (some k)) '' {k : UInt64 | k.toNat < n.toNat * (n.toNat + 1) / 2}) ∧
    (∀ (α : Type) (m : Table α) (i j : UInt64) (f : α → α), m.side = n →
      m.cells.size = n.toNat * (n.toNat + 1) / 2 → i ≤ j → j < n →
        ∃ a m', m.cell? i j = .ok (some a) ∧ m.update i j f = .ok m' ∧
          m'.side = n ∧ m'.cells.size = m.cells.size ∧
          ∀ i' j', m'.cell? i' j' = if i = i' ∧ j = j' then .ok (some (f a)) else m.cell? i' j') ∧
    (∀ (rules : List Rule) (w : List Terminal), w.length = n.toNat →
      fill rules w = .ok (.ofTriangle (Chart.ofWord rules w))) ∧
    ∀ (g : Grammar) (word : String) (chart : Chart), word.length = n.toNat →
      g.chart word = .ok chart →
        ∃ w, g.readWord word.toList = .ok w ∧ fill g.rules.toList w = .ok (.ofTriangle chart) := by
  refine ⟨fun i j => index_eq_none_iff hn, fun i j hij hj => ?_, bijOn_index hn,
    fun α m i j f hside hsize hij hj => Table.exists_update hn hside hsize hij hj f,
    fun rules w hw => fill_eq hn hw, fun g word chart => exists_fill_of_chart hn⟩
  obtain ⟨k, hk, hplace⟩ := exists_index hn hij hj
  exact ⟨k, hk, hplace, Triangle.getElem?_rowByRow.2 hplace⟩

/-- In a triangle with four rows the cell of the pair inside nested brackets has a place, a change
of it is not seen in its neighbour, and the chart of nested brackets is filled in. -/
theorem nested_brackets_are_filled_in_within_range :
    (4 : UInt64).toNat * ((4 : UInt64).toNat + 1) < 2 ^ 64 ∧
      (∃ k, index 4 1 2 = .ok (some k) ∧ (Triangle.rowByRow 4)[k.toNat]? = some (1, 2)) ∧
      (∃ m', (⟨4, .replicate 10 0⟩ : Table Nat).update 1 2 (· + 1) = .ok m' ∧
        m'.cell? 1 2 = .ok (some 1) ∧ m'.cell? 1 3 = .ok (some 0)) ∧
      fill Grammar.brackets.rules.toList Grammar.brackets.nested =
        .ok (.ofTriangle (Chart.ofWord Grammar.brackets.rules.toList Grammar.brackets.nested)) := by
  have hn : (4 : UInt64).toNat * ((4 : UInt64).toNat + 1) < 2 ^ 64 := by decide
  obtain ⟨-, hplaces, -, hchanges, hfill, -⟩ := index_is_exact_and_accesses_are_in_range 4 hn
  obtain ⟨k, hk, -, hrow⟩ := hplaces 1 2 (by decide) (by decide)
  obtain ⟨a, m', hcell, hupdate, -, -, hcells⟩ :=
    hchanges Nat ⟨4, .replicate 10 0⟩ 1 2 (· + 1) rfl (by decide) (by decide) (by decide)
  obtain rfl : 0 = a := by
    have hzero : (⟨4, .replicate 10 0⟩ : Table Nat).cell? 1 2 = .ok (some 0) := by decide
    simpa [hzero] using hcell
  have hneighbour : (⟨4, .replicate 10 0⟩ : Table Nat).cell? 1 3 = .ok (some 0) := by decide
  refine ⟨hn, ⟨k, hk, hrow⟩, ⟨m', hupdate, by simp [hcells], ?_⟩, hfill _ _ (by decide)⟩
  rw [hcells, if_neg (by decide), hneighbour]

end Machine

end ChomskyGrammar
