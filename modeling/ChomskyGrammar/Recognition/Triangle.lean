/-
# Upper triangles

A table with one cell for every pair `i ≤ j < n`, stored row by row in one array.  The
cells of row `i` start after the `n + (n - 1) + … + (n - i + 1)` cells above it.  Main
statements: every pair of the triangle has a place in the array (`index?_lt`), different
pairs have different places (`index?_inj`), no place is left over (`exists_index?`), and so
a write is read back at its own pair only (`get?_set`).
-/

namespace ChomskyGrammar

namespace Triangle

/-- The number of cells of a triangle with side `n`. -/
def area (n : Nat) : Nat := n * (n + 1) / 2

/-- The number of cells above row `i` of a triangle with side `n`. -/
def rowStart (n i : Nat) : Nat := i * n - i * (i - 1) / 2

/-- The place of the cell `(i, j)`, if there is such a cell. -/
def index? (n i j : Nat) : Option Nat :=
  if i ≤ j ∧ j < n then some (rowStart n i + (j - i)) else none

theorem index?_eq_some_iff {n i j k : Nat} :
    index? n i j = some k ↔ (i ≤ j ∧ j < n) ∧ rowStart n i + (j - i) = k := by
  rw [index?]
  split
  · rename_i h
    simp [h]
  · rename_i h
    simp [h]

theorem index?_eq_none_iff {n i j : Nat} : index? n i j = none ↔ j < i ∨ n ≤ j := by
  rw [index?]
  split
  · simp only [reduceCtorEq, false_iff]
    omega
  · simp only [true_iff]
    omega

/-! ### Rows lie one after the other -/

theorem succ_mul_div_two (i : Nat) : (i + 1) * i / 2 = i * (i - 1) / 2 + i := by
  cases i with
  | zero => rfl
  | succ i =>
    have h : (i + 1 + 1) * (i + 1) = (i + 1) * i + (i + 1) * 2 := by
      rw [← Nat.mul_add, Nat.mul_comm]
    rw [h, Nat.add_mul_div_right _ _ (by decide), Nat.add_sub_cancel]

theorem half_le (n i : Nat) (h : i ≤ n) : i * (i - 1) / 2 ≤ i * n :=
  Nat.le_trans (Nat.div_le_self _ _) (Nat.mul_le_mul_left i (by omega))

@[simp] theorem rowStart_zero (n : Nat) : rowStart n 0 = 0 := by
  simp [rowStart]

theorem rowStart_succ {n i : Nat} (h : i < n) : rowStart n (i + 1) = rowStart n i + (n - i) := by
  have h₁ := succ_mul_div_two i
  have h₂ := half_le n i (Nat.le_of_lt h)
  have h₃ : (i + 1) * n = i * n + n := Nat.succ_mul i n
  unfold rowStart
  rw [Nat.add_sub_cancel, h₁, h₃]
  omega

theorem rowStart_mono {n i k : Nat} (hik : i ≤ k) (hk : k ≤ n) :
    rowStart n i ≤ rowStart n k := by
  induction k with
  | zero =>
    have hi : i = 0 := by omega
    exact Nat.le_of_eq (congrArg (rowStart n) hi)
  | succ k ih =>
    rcases Nat.lt_or_ge i (k + 1) with h | h
    · have h₁ := ih (by omega) (by omega)
      have h₂ := rowStart_succ (n := n) (i := k) (by omega)
      omega
    · have hi : i = k + 1 := by omega
      exact Nat.le_of_eq (congrArg (rowStart n) hi)

theorem rowStart_self (n : Nat) : rowStart n n = area n := by
  have h₁ := succ_mul_div_two n
  have h₂ := half_le n n (Nat.le_refl n)
  have h₃ : n * (n - 1) + n = n * n := by
    cases n with
    | zero => rfl
    | succ n => exact (Nat.mul_succ (n + 1) n).symm
  have h₄ : n * (n + 1) = n * (n - 1) + n * 2 := by
    rw [Nat.mul_add, Nat.mul_one, ← h₃]
    omega
  rw [rowStart, area]
  rw [h₄, Nat.add_mul_div_right _ _ (by decide)]
  have h₅ := Nat.div_mul_le_self (n * (n - 1)) 2
  have h₆ : n * (n - 1) % 2 = 0 := by
    have h := Nat.mod_two_eq_zero_or_one n
    cases n with
    | zero => rfl
    | succ n =>
      rw [Nat.add_sub_cancel, Nat.mul_mod]
      rcases Nat.mod_two_eq_zero_or_one n with h | h
      · rw [h, Nat.mul_zero]
      · rw [Nat.add_mod, h]
  omega

theorem index?_lt {n i j k : Nat} (h : index? n i j = some k) : k < area n := by
  obtain ⟨⟨hij, hj⟩, rfl⟩ := index?_eq_some_iff.1 h
  have h₁ := rowStart_succ (n := n) (i := i) (by omega)
  have h₂ := rowStart_mono (n := n) (i := i + 1) (k := n) (by omega) (Nat.le_refl n)
  rw [rowStart_self] at h₂
  omega

theorem index?_inj {n i j i' j' k : Nat} (h : index? n i j = some k)
    (h' : index? n i' j' = some k) : i = i' ∧ j = j' := by
  obtain ⟨⟨hij, hj⟩, hk⟩ := index?_eq_some_iff.1 h
  obtain ⟨⟨hij', hj'⟩, hk'⟩ := index?_eq_some_iff.1 h'
  have h₁ := rowStart_succ (n := n) (i := i) (by omega)
  have h₂ := rowStart_succ (n := n) (i := i') (by omega)
  rcases Nat.lt_trichotomy i i' with hlt | heq | hgt
  · have h₃ := rowStart_mono (n := n) (i := i + 1) (k := i') (by omega) (by omega)
    omega
  · subst heq
    exact ⟨rfl, by omega⟩
  · have h₃ := rowStart_mono (n := n) (i := i' + 1) (k := i) (by omega) (by omega)
    omega

/-- Every place of the array is that of some pair. -/
theorem exists_index? {n k : Nat} (h : k < area n) : ∃ i j, index? n i j = some k := by
  have hrow : ∀ m ≤ n, k < rowStart n m → ∃ i j, index? n i j = some k := by
    intro m
    induction m with
    | zero =>
      intro _ hk
      rw [rowStart_zero] at hk
      omega
    | succ m ih =>
      intro hm hk
      rw [rowStart_succ hm] at hk
      by_cases habove : k < rowStart n m
      · exact ih (by omega) habove
      · exact ⟨m, m + (k - rowStart n m), index?_eq_some_iff.2 (by omega)⟩
  exact hrow n (Nat.le_refl n) (rowStart_self n ▸ h)

end Triangle

/-- A table with one cell for every pair `i ≤ j < side`. -/
structure Triangle (α : Type) where
  /-- The number of rows. -/
  side : Nat
  /-- The cells, row by row. -/
  cells : Array α
  /-- There is one cell for every pair. -/
  size_cells : cells.size = Triangle.area side
deriving DecidableEq

namespace Triangle

variable {α : Type}

/-- The triangle with the same value in every cell. -/
def replicate (n : Nat) (a : α) : Triangle α := ⟨n, Array.replicate (area n) a, by simp⟩

/-- Whether there are no cells. -/
def isEmpty (t : Triangle α) : Bool := t.side == 0

/-- The value of the cell `(i, j)`, if there is such a cell. -/
def get? (t : Triangle α) (i j : Nat) : Option α :=
  (index? t.side i j).bind fun k => t.cells[k]?

/-- The triangle with the cell `(i, j)` replaced; a pair outside changes nothing. -/
def set (t : Triangle α) (i j : Nat) (a : α) : Triangle α :=
  match index? t.side i j with
  | none => t
  | some k => ⟨t.side, t.cells.setIfInBounds k a, by rw [Array.size_setIfInBounds, t.size_cells]⟩

/-- The cell at the right end of the first row. -/
def corner? (t : Triangle α) : Option α := t.get? 0 (t.side - 1)

@[simp] theorem side_replicate (n : Nat) (a : α) : (replicate n a).side = n := rfl

@[simp] theorem side_set (t : Triangle α) (i j : Nat) (a : α) : (t.set i j a).side = t.side := by
  rw [set]
  split <;> rfl

theorem get?_eq_none_iff {t : Triangle α} {i j : Nat} :
    t.get? i j = none ↔ j < i ∨ t.side ≤ j := by
  rw [get?]
  cases h : index? t.side i j with
  | none => simpa using index?_eq_none_iff.1 h
  | some k =>
    have hk : k < t.cells.size := t.size_cells ▸ index?_lt h
    have h' : ¬ (j < i ∨ t.side ≤ j) := by
      rw [← index?_eq_none_iff, h]
      simp
    simp [hk, h']

/-- The cell of a pair of the triangle is there. -/
theorem exists_get? {t : Triangle α} {i j : Nat} (h : i ≤ j) (hj : j < t.side) :
    ∃ a, t.get? i j = some a := by
  rw [← Option.ne_none_iff_exists', ne_eq, get?_eq_none_iff]
  omega

theorem get?_replicate {n i j : Nat} {a : α} (h : i ≤ j) (hj : j < n) :
    (replicate n a).get? i j = some a := by
  have hi : index? n i j = some (rowStart n i + (j - i)) := index?_eq_some_iff.2 ⟨⟨h, hj⟩, rfl⟩
  have hk := index?_lt hi
  simp [get?, replicate, hi, hk]

theorem get?_set_self {t : Triangle α} {i j : Nat} {a : α} (h : i ≤ j) (hj : j < t.side) :
    (t.set i j a).get? i j = some a := by
  have hi : index? t.side i j = some (rowStart t.side i + (j - i)) :=
    index?_eq_some_iff.2 ⟨⟨h, hj⟩, rfl⟩
  have hk : rowStart t.side i + (j - i) < t.cells.size := t.size_cells ▸ index?_lt hi
  rw [get?]
  rw [side_set, hi]
  simp [set, hi, hk]

theorem get?_set_ne {t : Triangle α} {i j i' j' : Nat} {a : α} (h : ¬ (i = i' ∧ j = j')) :
    (t.set i j a).get? i' j' = t.get? i' j' := by
  unfold get?
  rw [side_set]
  cases hk' : index? t.side i' j' with
  | none => rfl
  | some k' =>
    cases hk : index? t.side i j with
    | none => simp [set, hk]
    | some k =>
      have hne : k ≠ k' := by
        rintro rfl
        exact h (index?_inj hk hk')
      simp [set, hk, Array.getElem?_setIfInBounds_ne hne]

/-- A write is read back at its own pair and nowhere else. -/
theorem get?_set {t : Triangle α} {i j i' j' : Nat} {a : α} (h : i ≤ j) (hj : j < t.side) :
    (t.set i j a).get? i' j' = if i = i' ∧ j = j' then some a else t.get? i' j' := by
  split
  · rename_i heq
    obtain ⟨rfl, rfl⟩ := heq
    exact get?_set_self h hj
  · rename_i hne
    exact get?_set_ne hne

end Triangle

end ChomskyGrammar
