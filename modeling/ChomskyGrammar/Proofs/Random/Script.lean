/-
# Draws that pick a given member

Which member of a list is picked depends on a draw.  If the list is not too long, every member has a
draw that picks it and that is accepted at once: for number `i` of `k` members it is `2^32 * i / k`,
rounded up (`exists_draw`).  So whatever is to be picked next, some draws make a source do so
(`exists_draw_of_mem`), and the draws after them are left for what is to be picked later.
-/
import ChomskyGrammar.Proofs.Random.Tireless

namespace ChomskyGrammar

namespace Source

/-- Whether a source with some patience is about to make certain draws. -/
structure Draws (s : Source) (draws : List UInt32) : Prop where
  patient : 0 < s.patience
  /-- The stream has the draws in it, from the position on. -/
  stream_eq : ∀ i (h : i < draws.length), s.stream (s.position + i) = draws[i]

variable {s : Source} {v : UInt32} {draws : List UInt32} {k i : Nat}

lemma draws_scripted (draws : List UInt32) : (scripted draws).Draws draws where
  patient := show 0 < longPatience by decide
  stream_eq i h := by simp [scripted, h]

/-- The source after the first of the draws. -/
lemma Draws.tail (h : s.Draws (v :: draws)) :
    Draws { s with position := s.position + 1 } draws where
  patient := h.patient
  stream_eq i hi := by
    have hnext := h.stream_eq (i + 1) (Nat.succ_lt_succ hi)
    rw [List.getElem_cons_succ] at hnext
    rw [← hnext, Nat.add_assoc, Nat.add_comm 1 i]

lemma Draws.head_eq (h : s.Draws (v :: draws)) : s.stream s.position = v :=
  h.stream_eq 0 (Nat.zero_lt_succ _)

/-- A fractional part below the number of members is in the zone. -/
lemma le_zone (hi : i < k) : i ≤ zone k := by
  have hk : k ≤ k <<< (31 - Nat.log2 k) := by
    rw [Nat.shiftLeft_eq]
    exact Nat.le_mul_of_pos_right k (Nat.two_pow_pos _)
  rw [zone]
  omega

/-- **Every number below `k` has a draw that picks it**, and is accepted. -/
theorem exists_draw (hk : k ≤ drawCount) (hi : i < k) :
    ∃ v : UInt32, accepts k v = true ∧ v.toNat * k / drawCount = i := by
  have hpos : 0 < drawCount := by decide
  -- The product of the draw and `k` exceeds `i * 2^32` by less than `k`.
  let q := (i * drawCount + (k - 1)) / k
  have hlow : i * drawCount + (k - 1) < q * k + k := Nat.lt_div_mul_add (by omega)
  have hhigh : q * k ≤ i * drawCount + (k - 1) := Nat.div_mul_le_self _ _
  obtain ⟨r, hr⟩ : ∃ r, q * k = r + i * drawCount := ⟨q * k - i * drawCount, by omega⟩
  have hrk : r < k := by omega
  have hrcount : r < drawCount := Nat.lt_of_lt_of_le hrk hk
  have hq : q < drawCount := by
    have hsucc : (i + 1) * drawCount ≤ k * drawCount := Nat.mul_le_mul_right _ hi
    rw [Nat.succ_mul] at hsucc
    refine Nat.lt_of_mul_lt_mul_right (a := k) ?_
    rw [Nat.mul_comm drawCount]
    omega
  have hv : (UInt32.ofNat q).toNat = q := UInt32.toNat_ofNat_of_lt hq
  refine ⟨UInt32.ofNat q, ?_, ?_⟩
  · rw [accepts, hv, hr, Nat.add_mul_mod_self_right, Nat.mod_eq_of_lt hrcount]
    exact decide_eq_true (le_zone hrk)
  · rw [hv, hr, Nat.add_mul_div_right _ _ hpos, Nat.div_eq_of_lt hrcount, Nat.zero_add]

/-- **Every member of a list has a draw that picks it.**  The draws after it are still to come. -/
theorem exists_draw_of_mem {α : Type} {x y : α} {xs : List α}
    (hlength : (x :: xs).length ≤ drawCount) (hy : y ∈ x :: xs) :
    ∃ v, ∀ (s : Source) (rest : List UInt32), s.Draws (v :: rest) →
      ∃ s', s.choose? x xs = some (y, s') ∧ s'.Draws rest := by
  obtain ⟨i, hi, rfl⟩ := List.mem_iff_getElem.1 hy
  obtain ⟨v, haccepts, hpick⟩ := exists_draw hlength hi
  refine ⟨v, fun s rest hs => ⟨_, ?_, hs.tail⟩⟩
  have hfirst : firstAccepted? s.stream (x :: xs).length s.patience s.position =
      some s.position := by
    refine firstAccepted?_of_accepts hs.patient ?_
    rw [hs.head_eq]
    exact haccepts
  simp only [choose?, pick?, hfirst, Option.map_some, hs.head_eq, hpick, List.get_eq_getElem]

end Source

end ChomskyGrammar
