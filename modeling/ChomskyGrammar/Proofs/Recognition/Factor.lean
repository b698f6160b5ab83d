/-
# Factors of a word

The factor of a word from one position to another, and how it is derived: a factor of one
letter by a unit rule, a longer one by a binary rule whose halves derive the two factors on
both sides of some split (`derives_factor_iff`).
-/
import ChomskyGrammar.Proofs.Derivation.Language

namespace ChomskyGrammar

/-- The letters of a word from position `i` to position `j`, both included. -/
def factor (w : List Terminal) (i j : Nat) : List Terminal := (w.drop i).take (j + 1 - i)

variable {w : List Terminal} {i j k : Nat}

lemma length_factor (hij : i ≤ j) (hj : j < w.length) : (factor w i j).length = j + 1 - i := by
  rw [factor, List.length_take, List.length_drop]
  omega

lemma factor_self (hi : i < w.length) : factor w i i = [w[i]] := by
  rw [factor, List.drop_eq_getElem_cons hi, show i + 1 - i = 1 by omega]
  rfl

/-- The factor from the first to the last position is the word. -/
lemma factor_zero (w : List Terminal) : factor w 0 (w.length - 1) = w := by
  rw [factor, List.drop_zero, List.take_of_length_le (by omega)]

/-- A factor is split after any of its positions but the last. -/
lemma factor_append (hik : i ≤ k) (hkj : k < j) :
    factor w i k ++ factor w (k + 1) j = factor w i j := by
  have hlen : j + 1 - i = (k + 1 - i) + (j + 1 - (k + 1)) := by omega
  have hdrop : w.drop (k + 1) = (w.drop i).drop (k + 1 - i) := by
    rw [List.drop_drop, show i + (k + 1 - i) = k + 1 by omega]
  rw [factor, factor, factor, hlen, hdrop, List.take_add]

/-- Two words that are not empty and make up a factor are the two sides of a split. -/
lemma exists_split_of_append_eq (hij : i ≤ j) (hj : j < w.length) {u v : List Terminal}
    (h : u ++ v = factor w i j) (hu : u ≠ []) (hv : v ≠ []) :
    ∃ k, i ≤ k ∧ k < j ∧ u = factor w i k ∧ v = factor w (k + 1) j := by
  have hulen : 0 < u.length := List.length_pos_iff.2 hu
  have hvlen : 0 < v.length := List.length_pos_iff.2 hv
  have hlen : u.length + v.length = j + 1 - i := by
    rw [← List.length_append, h, length_factor hij hj]
  refine ⟨i + u.length - 1, by omega, by omega, ?_⟩
  have hk := factor_append (w := w) (i := i) (k := i + u.length - 1) (j := j)
    (by omega) (by omega)
  refine List.append_inj (h.trans hk.symm) ?_
  rw [length_factor (by omega) (by omega)]
  omega

/-! ### How factors are derived -/

variable {rules : List Rule} {a : Nonterminal}

lemma derives_singleton_iff {t : Terminal} :
    Derives rules a [t] ↔ (⟨a, .unit t⟩ : Rule) ∈ rules := by
  rw [derives_iff]
  constructor
  · rintro (⟨t', ht', h⟩ | ⟨b, c, u, v, -, hu, hv, h⟩)
    · obtain rfl : t = t' := by simpa using h
      exact ht'
    · -- two words that are not empty have more than one letter
      have hulen := List.length_pos_iff.2 hu.ne_nil
      have hvlen := List.length_pos_iff.2 hv.ne_nil
      have hlen := congrArg List.length h
      rw [List.length_append, List.length_singleton] at hlen
      omega
  · intro h
    exact .inl ⟨t, h, rfl⟩

/-- **A factor of more than one letter is derived by a binary rule and a split.** -/
theorem derives_factor_iff (hij : i < j) (hj : j < w.length) :
    Derives rules a (factor w i j) ↔
      ∃ k, i ≤ k ∧ k < j ∧ ∃ b c, (⟨a, .binary b c⟩ : Rule) ∈ rules ∧
        Derives rules b (factor w i k) ∧ Derives rules c (factor w (k + 1) j) := by
  constructor
  · intro h
    rcases derives_iff.1 h with ⟨t, -, ht⟩ | ⟨b, c, u, v, hrule, hu, hv, huv⟩
    · have hlen := length_factor (w := w) (Nat.le_of_lt hij) hj
      rw [ht, List.length_singleton] at hlen
      omega
    · obtain ⟨k, hik, hkj, rfl, rfl⟩ :=
        exists_split_of_append_eq (Nat.le_of_lt hij) hj huv.symm hu.ne_nil hv.ne_nil
      exact ⟨k, hik, hkj, b, c, hrule, hu, hv⟩
  · rintro ⟨k, hik, hkj, b, c, hrule, hu, hv⟩
    rw [← factor_append hik hkj]
    exact derives_append hrule hu hv

end ChomskyGrammar
