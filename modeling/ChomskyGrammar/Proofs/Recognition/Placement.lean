/-
# Places of cells in machine words

The cells of a triangle are stored row by row, and the place of a cell is computed from the
side of the triangle and the two coordinates.  Natural numbers have room for every product
on the way; the words of a machine do not.  Here the place is computed with 64-bit words by
operations that stop as soon as an exact result is not a word.

While `n * (n + 1)` is a word, nothing stops: the words compute the place that the natural
numbers compute (`index_eq_some_iff`), and this is the position of the cell among all pairs
`i ≤ j < n` listed row by row (`Triangle.getElem?_rowByRow`).  So every pair has a place of
its own, and every place below the area is taken (`bijOn_index`).
-/
import Mathlib.Algebra.Group.Nat.Defs
import Mathlib.Data.Set.Function
import ChomskyGrammar.Recognition.Triangle

namespace ChomskyGrammar

/-! ### The pairs of a triangle, row by row -/

namespace Triangle

variable {n m i j k : Nat}

/-- The pairs of the first `m` rows of a triangle with side `n`, row by row. -/
def rows (n m : Nat) : List (Nat × Nat) :=
  (List.range m).flatMap fun i => (List.range' i (n - i)).map fun j => (i, j)

/-- The pairs `i ≤ j < n`, row by row. -/
def rowByRow (n : Nat) : List (Nat × Nat) := rows n n

lemma rows_succ : rows n (m + 1) = rows n m ++ (List.range' m (n - m)).map fun j => (m, j) := by
  simp [rows, List.range_succ]

lemma length_rows (hm : m ≤ n) : (rows n m).length = rowStart n m := by
  induction m with
  | zero => simp [rows]
  | succ m ih =>
    rw [rows_succ, List.length_append, ih (by omega), List.length_map, List.length_range',
      rowStart_succ hm]

/-- There is one pair for every place. -/
theorem length_rowByRow : (rowByRow n).length = area n :=
  (length_rows (Nat.le_refl n)).trans (rowStart_self n)

/-- A pair of the first `m` rows stands where its row starts, moved on by its distance from the
diagonal. -/
lemma getElem?_rows (hm : m ≤ n) (him : i < m) (hij : i ≤ j) (hj : j < n) :
    (rows n m)[rowStart n i + (j - i)]? = some (i, j) := by
  induction m with
  | zero => omega
  | succ m ih =>
    rw [rows_succ]
    rcases Nat.lt_or_ge i m with hlt | hge
    · have hstart : rowStart n i + (j - i) < (rows n m).length := by
        have hnext := rowStart_succ (n := n) (i := i) (by omega)
        have hmono := rowStart_mono (n := n) (i := i + 1) (k := m) hlt (by omega)
        rw [length_rows (by omega)]
        omega
      rw [List.getElem?_append_left hstart]
      exact ih (by omega) hlt
    · obtain rfl : i = m := by omega
      rw [List.getElem?_append_right (by rw [length_rows (by omega)]; omega),
        length_rows (by omega), Nat.add_sub_cancel_left, List.getElem?_map,
        List.getElem?_range' (by omega)]
      simp
      omega

/-- **The place of a pair is its position row by row.** -/
theorem getElem?_rowByRow : (rowByRow n)[k]? = some (i, j) ↔ index? n i j = some k := by
  have hplace : ∀ {i j k}, index? n i j = some k → (rowByRow n)[k]? = some (i, j) := by
    intro i j k h
    obtain ⟨⟨hij, hj⟩, rfl⟩ := index?_eq_some_iff.1 h
    exact getElem?_rows (Nat.le_refl n) (by omega) hij hj
  constructor
  · intro h
    -- The position is that of some pair, and only one pair stands there.
    have hk : k < area n := length_rowByRow (n := n) ▸ (List.getElem?_eq_some_iff.1 h).1
    obtain ⟨i', j', hk'⟩ := exists_index? hk
    have hsame := (hplace hk').symm.trans h
    rw [Option.some.injEq, Prod.mk.injEq] at hsame
    rwa [hsame.1, hsame.2] at hk'
  · exact hplace

end Triangle

/-! ### Arithmetic that stops at an overflow -/

namespace Machine

/-- Why a machine stops. -/
inductive Trap
  /-- The exact result of an operation is not a word. -/
  | overflow
  /-- An array has no such element. -/
  | bounds
  /-- A triangle has no such cell. -/
  | noCell
deriving DecidableEq

/-- The word with a given value. -/
def fit (v : Nat) : Except Trap UInt64 :=
  if v < 2 ^ 64 then .ok (UInt64.ofNat v) else .error .overflow

/-- The sum of two words. -/
def add (a b : UInt64) : Except Trap UInt64 := fit (a.toNat + b.toNat)

/-- The product of two words. -/
def mul (a b : UInt64) : Except Trap UInt64 := fit (a.toNat * b.toNat)

/-- The difference of two words, which must not go below zero. -/
def sub (a b : UInt64) : Except Trap UInt64 :=
  if b ≤ a then fit (a.toNat - b.toNat) else .error .overflow

/-- The difference of two words, or zero where it would go below. -/
def saturatingSub (a b : UInt64) : UInt64 := if b ≤ a then a - b else 0

/-- The number of cells of a triangle with side `n`. -/
def area (n : UInt64) : Except Trap UInt64 := do
  let product ← mul n (← add n 1)
  return product / 2

/-- The place of the cell `(i, j)` of a triangle with side `n`, if there is such a cell. -/
def index (n i j : UInt64) : Except Trap (Option UInt64) :=
  if j < i ∨ n ≤ j then .ok none
  else do
    let square ← mul i n
    let missing ← mul i (saturatingSub i 1)
    let start ← sub square (missing / 2)
    let place ← add start (← sub j i)
    return some place

variable {a b n i j k : UInt64} {v : Nat}

/-- An operation gives the word with its exact result, and stops if there is none. -/
lemma fit_eq_ok_iff : fit v = .ok k ↔ k.toNat = v := by
  rw [fit]
  split
  · rename_i h
    rw [Except.ok.injEq, ← UInt64.toNat_inj, UInt64.toNat_ofNat_of_lt' h, eq_comm]
  · rename_i h
    simp only [reduceCtorEq, false_iff]
    rintro rfl
    exact h k.toNat_lt

lemma add_eq_ok_iff : add a b = .ok k ↔ k.toNat = a.toNat + b.toNat := fit_eq_ok_iff

lemma mul_eq_ok_iff : mul a b = .ok k ↔ k.toNat = a.toNat * b.toNat := fit_eq_ok_iff

lemma sub_eq_ok_iff : sub a b = .ok k ↔ k.toNat + b.toNat = a.toNat := by
  rw [sub]
  split
  · rename_i h
    have hba := UInt64.le_iff_toNat_le.1 h
    rw [fit_eq_ok_iff]
    omega
  · rename_i h
    have hba : ¬ b.toNat ≤ a.toNat := fun hle => h (UInt64.le_iff_toNat_le.2 hle)
    simp only [reduceCtorEq, false_iff]
    omega

lemma toNat_saturatingSub : (saturatingSub a b).toNat = a.toNat - b.toNat := by
  rw [saturatingSub]
  split
  · rename_i h
    exact UInt64.toNat_sub_of_le a b h
  · rename_i h
    have hba : ¬ b.toNat ≤ a.toNat := fun hle => h (UInt64.le_iff_toNat_le.2 hle)
    show 0 = _
    omega

/-- A number that fits is the value of a word. -/
lemma exists_toNat_eq (h : v < 2 ^ 64) : ∃ k : UInt64, k.toNat = v :=
  ⟨UInt64.ofNat v, UInt64.toNat_ofNat_of_lt' h⟩

/-- A machine that has not stopped has done all its steps. -/
lemma bind_eq_ok_iff {α β : Type} {x : Except Trap α} {f : α → Except Trap β} {y : β} :
    x >>= f = .ok y ↔ ∃ a, x = .ok a ∧ f a = .ok y := by
  cases x with
  | error e => simp [bind, Except.bind]
  | ok a => simp [bind, Except.bind]

lemma pure_eq_ok_iff {α : Type} {a b : α} : (pure a : Except Trap α) = .ok b ↔ a = b := by
  simp [pure, Except.pure]

/-! ### The place of a cell -/

lemma succ_lt_of_mul_succ_lt {v : Nat} (h : v * (v + 1) < 2 ^ 64) : v + 1 < 2 ^ 64 := by
  cases v with
  | zero => decide
  | succ v => exact Nat.lt_of_le_of_lt (Nat.le_mul_of_pos_left _ v.succ_pos) h

/-- **The area is computed exactly when the product that is halved is a word.** -/
theorem area_eq_ok_iff :
    area n = .ok k ↔ n.toNat * (n.toNat + 1) < 2 ^ 64 ∧ k.toNat = Triangle.area n.toNat := by
  simp only [area, bind_eq_ok_iff, pure_eq_ok_iff, add_eq_ok_iff, mul_eq_ok_iff]
  constructor
  · rintro ⟨next, hnext, product, hproduct, rfl⟩
    rw [hnext] at hproduct
    refine ⟨hproduct ▸ product.toNat_lt, ?_⟩
    rw [UInt64.toNat_div, hproduct]
    rfl
  · rintro ⟨h, hk⟩
    obtain ⟨next, hnext⟩ := exists_toNat_eq (succ_lt_of_mul_succ_lt h)
    obtain ⟨product, hproduct⟩ := exists_toNat_eq h
    refine ⟨next, hnext, product, by rw [hproduct, hnext], ?_⟩
    rw [← UInt64.toNat_inj, UInt64.toNat_div, hproduct, hk]
    rfl

example : area 4294967295 = .ok 9223372034707292160 := by decide

example : area 4294967296 = .error .overflow := by decide

/-- Inside the triangle the place is computed if each of the five operations is exact. -/
lemma index_eq_some_iff_exact (hij : i ≤ j) (hj : j < n) :
    index n i j = .ok (some k) ↔
      ∃ square : UInt64, square.toNat = i.toNat * n.toNat ∧
      ∃ missing : UInt64, missing.toNat = i.toNat * (i.toNat - 1) ∧
      ∃ start : UInt64, start.toNat + missing.toNat / 2 = square.toNat ∧
      ∃ gap : UInt64, gap.toNat + i.toNat = j.toNat ∧ k.toNat = start.toNat + gap.toNat := by
  have hin : ¬ (j < i ∨ n ≤ j) := by
    rw [not_or]
    exact ⟨UInt64.not_lt.2 hij, UInt64.not_le.2 hj⟩
  rw [index, if_neg hin]
  simp only [bind_eq_ok_iff, pure_eq_ok_iff, mul_eq_ok_iff, sub_eq_ok_iff, add_eq_ok_iff,
    toNat_saturatingSub, UInt64.toNat_div, Option.some.injEq, exists_eq_right]
  rfl

/-- Outside the triangle there is no place, and nothing is computed. -/
lemma index_of_outside (h : j < i ∨ n ≤ j) : index n i j = .ok none := if_pos h

section

variable (hn : n.toNat * (n.toNat + 1) < 2 ^ 64)

include hn

lemma area_lt : Triangle.area n.toNat < 2 ^ 64 := Nat.lt_of_le_of_lt (Nat.div_le_self _ 2) hn

lemma exists_area : ∃ size, area n = .ok size ∧ size.toNat = Triangle.area n.toNat := by
  obtain ⟨size, hsize⟩ := exists_toNat_eq (area_lt hn)
  exact ⟨size, area_eq_ok_iff.2 ⟨hn, hsize⟩, hsize⟩

/-- **A pair of the triangle gets its place, without an overflow.** -/
theorem exists_index (hij : i ≤ j) (hj : j < n) :
    ∃ k, index n i j = .ok (some k) ∧
      Triangle.index? n.toNat i.toNat j.toNat = some k.toNat := by
  have hij' := UInt64.le_iff_toNat_le.1 hij
  have hj' := UInt64.lt_iff_toNat_lt.1 hj
  have hplace := Triangle.index?_eq_some_iff.2 ⟨⟨hij', hj'⟩, rfl⟩
  -- No intermediate result is above the product that the area is half of.
  have hbelow := Triangle.index?_lt hplace
  have harea : Triangle.area n.toNat ≤ n.toNat * (n.toNat + 1) := Nat.div_le_self _ _
  have hsquare : i.toNat * n.toNat ≤ n.toNat * (n.toNat + 1) :=
    Nat.mul_le_mul (by omega) (by omega)
  have hmissing : i.toNat * (i.toNat - 1) ≤ i.toNat * n.toNat :=
    Nat.mul_le_mul_left _ (by omega)
  have hhalf := Triangle.half_le n.toNat i.toNat (by omega)
  rw [Triangle.rowStart] at hbelow hplace
  obtain ⟨square, hs⟩ := exists_toNat_eq (v := i.toNat * n.toNat) (by omega)
  obtain ⟨missing, hm⟩ := exists_toNat_eq (v := i.toNat * (i.toNat - 1)) (by omega)
  obtain ⟨start, ht⟩ := exists_toNat_eq (v := square.toNat - missing.toNat / 2) (by omega)
  obtain ⟨gap, hg⟩ := exists_toNat_eq (v := j.toNat - i.toNat) (by omega)
  obtain ⟨k, hk⟩ := exists_toNat_eq (v := start.toNat + gap.toNat) (by omega)
  refine ⟨k, (index_eq_some_iff_exact hij hj).2
    ⟨square, hs, missing, hm, start, ?_, gap, ?_, hk⟩, ?_⟩
  · rw [ht, hs, hm]
    omega
  · omega
  · rw [hplace, hk, ht, hg, hs, hm]

/-- There is no place exactly outside the triangle. -/
theorem index_eq_none_iff : index n i j = .ok none ↔ j < i ∨ n ≤ j := by
  refine ⟨fun h => ?_, index_of_outside⟩
  by_contra hin
  rw [not_or, UInt64.not_lt, UInt64.not_le] at hin
  obtain ⟨k, hk, -⟩ := exists_index hn hin.1 hin.2
  rw [h] at hk
  cases hk

/-- **The words compute the place that the natural numbers compute.** -/
theorem index_eq_some_iff : index n i j = .ok (some k) ↔
    Triangle.index? n.toNat i.toNat j.toNat = some k.toNat := by
  by_cases hout : j < i ∨ n ≤ j
  · have hnone : Triangle.index? n.toNat i.toNat j.toNat = none := by
      rw [UInt64.lt_iff_toNat_lt, UInt64.le_iff_toNat_le] at hout
      exact Triangle.index?_eq_none_iff.2 hout
    simp [index_of_outside hout, hnone]
  · rw [not_or, UInt64.not_lt, UInt64.not_le] at hout
    obtain ⟨k', hk', hplace⟩ := exists_index hn hout.1 hout.2
    rw [hk', hplace, Except.ok.injEq, Option.some.injEq, Option.some.injEq, UInt64.toNat_inj]

/-- Every pair of the triangle has a place below the area, no other pair has the same one, and
every place below the area is taken. -/
theorem bijOn_index :
    Set.BijOn (fun p : UInt64 × UInt64 => index n p.1 p.2) {p | p.1 ≤ p.2 ∧ p.2 < n}
      ((fun k => .ok (some k)) '' {k : UInt64 | k.toNat < Triangle.area n.toNat}) := by
  refine ⟨?_, ?_, ?_⟩
  · rintro ⟨i, j⟩ ⟨hij, hj⟩
    obtain ⟨k, hk, hplace⟩ := exists_index hn hij hj
    exact ⟨k, Triangle.index?_lt hplace, hk.symm⟩
  · rintro ⟨i, j⟩ ⟨hij, hj⟩ ⟨i', j'⟩ - (h : index n i j = index n i' j')
    obtain ⟨k, hk, hplace⟩ := exists_index hn hij hj
    obtain ⟨hi, hj⟩ := Triangle.index?_inj hplace ((index_eq_some_iff hn).1 (h ▸ hk))
    exact Prod.ext (UInt64.toNat_inj.1 hi) (UInt64.toNat_inj.1 hj)
  · rintro _ ⟨k, hk, rfl⟩
    obtain ⟨i, j, hplace⟩ := Triangle.exists_index? hk
    obtain ⟨⟨hij, hj⟩, -⟩ := Triangle.index?_eq_some_iff.1 hplace
    have hn' := n.toNat_lt
    obtain ⟨i, rfl⟩ := exists_toNat_eq (v := i) (by omega)
    obtain ⟨j, rfl⟩ := exists_toNat_eq (v := j) (by omega)
    exact ⟨(i, j), ⟨UInt64.le_iff_toNat_le.2 hij, UInt64.lt_iff_toNat_lt.2 hj⟩,
      (index_eq_some_iff hn).2 hplace⟩

end

end Machine

end ChomskyGrammar
