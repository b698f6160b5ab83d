/-
# What is known at a visit

A rule is visited while some lengths are known, which may still get smaller and may depend on the
order of the rules.  What each rule keeps, holds at every visit (`Visits.induct`).  Two things are
kept in any order: a known length is that of some derived word (`Visits.attained`), and it is small
if few nonterminals are known, as a word doubles its length at most once for each of them
(`Visits.doubled`).
-/
import Mathlib.Data.Finset.Card
import ChomskyGrammar.Proofs.Generation.LeastYields

namespace ChomskyGrammar

namespace Yields

variable {rules rs : List Rule} {r : Rule} {y y' : Yields} {n : Nat} {a : Nonterminal}

/-! ### What holds at every visit -/

/-- What each rule keeps, a sweep keeps. -/
lemma sweep_induct {P : Yields → Prop}
    (step : ∀ r ∈ rules, ∀ y y', P y → y.relax r = some y' → P y') (hrs : ∀ r ∈ rs, r ∈ rules)
    (hy : P y) (h : y.sweep rs = some y') : P y' := by
  induction rs generalizing y with
  | nil => exact Option.some.inj h ▸ hy
  | cons r rs ih =>
    rw [sweep] at h
    split at h
    · exact absurd h (by simp)
    · rename_i y₁ hy₁
      have hr := hrs r List.mem_cons_self
      exact ih (fun q hq => hrs q (List.mem_cons_of_mem r hq)) (step r hr y y₁ hy hy₁) h

/-- What holds of nothing known and is kept by each rule, holds at every visit. -/
theorem Visits.induct {P : Yields → Prop} (init : P .empty)
    (step : ∀ r ∈ rules, ∀ y y', P y → y.relax r = some y' → P y') (h : Visits rules y r) :
    P y := by
  obtain ⟨k, y₀, before, later, hk, hrules, hbefore⟩ := h
  have hsweeps : P y₀ := by
    clear hbefore
    induction k generalizing y₀ with
    | zero => exact Option.some.inj hk ▸ init
    | succ k ih =>
      obtain ⟨y₁, hy₁, hsweep⟩ := Option.bind_eq_some_iff.1 hk
      exact sweep_induct step (fun _ hr => hr) (ih y₁ hy₁) hsweep
  refine sweep_induct step (fun q hq => ?_) hsweeps hbefore
  rw [hrules]
  exact List.mem_append_left _ hq

/-! ### Known lengths are lengths of words -/

/-- Every known length is that of a derived word. -/
def Attained (rules : List Rule) (y : Yields) : Prop :=
  ∀ a n, y.get? a = some n → n ∈ wordLengths rules a

lemma Attained.of_rule (hy : y.Attained rules) (hr : r ∈ rules)
    (h : y.bodyLength? r.body = some n) : n ∈ wordLengths rules r.head := by
  obtain ⟨a, body⟩ := r
  cases body with
  | unit t =>
    obtain rfl : 1 = n := Option.some.inj h
    exact ⟨[t], derives_unit hr, rfl⟩
  | binary b c =>
    obtain ⟨p, q, hp, hq, rfl⟩ := bodyLength?_binary.1 h
    obtain ⟨u, hu, rfl⟩ := hy b p hp
    obtain ⟨v, hv, rfl⟩ := hy c q hq
    exact ⟨u ++ v, derives_append hr hu hv, List.length_append⟩

lemma attained_relax (hr : r ∈ rules) (hy : y.Attained rules) (h : y.relax r = some y') :
    y'.Attained rules := by
  rcases relax_eq_some h with rfl | ⟨n, hn, -, -, rfl⟩
  · exact hy
  · intro a m hm
    rw [get?_insert] at hm
    split at hm
    · rename_i ha
      obtain rfl := Option.some.inj hm
      exact ha ▸ hy.of_rule hr hn
    · exact hy a m hm

lemma Visits.attained (h : Visits rules y r) : y.Attained rules :=
  h.induct (fun _ _ h => absurd h (by simp)) fun _ hr _ _ hy hrelax => attained_relax hr hy hrelax

/-! ### Known lengths are small if few nonterminals are known -/

/-- The nonterminals with a known length. -/
def known (y : Yields) : Finset Nonterminal := (y.entries.map Prod.fst).toFinset

lemma mem_known : a ∈ y.known ↔ ∃ n, y.get? a = some n := by
  rw [← Option.isSome_iff_exists, get?, List.lookup_isSome_iff, known, List.mem_toFinset,
    List.mem_map]
  exact exists_congr fun p => and_congr_right fun _ => by rw [beq_iff_eq, eq_comm]

lemma known_insert : (y.insert a n).known = Insert.insert a y.known := by
  ext b
  rw [Finset.mem_insert, mem_known, mem_known, get?_insert]
  by_cases h : b = a <;> simp [h]

/-- Whether only heads are known, and all known lengths together allow for one doubling for each
nonterminal that is known. -/
structure Doubled (rules : List Rule) (y : Yields) : Prop where
  head : ∀ a ∈ y.known, ∃ r ∈ rules, r.head = a
  two_mul_le : ∀ a n, y.get? a = some n → 2 * n ≤ 2 ^ y.known.card

lemma Doubled.bodyLength_le (hy : Doubled rules y) {b : Body} (h : y.bodyLength? b = some n) :
    n ≤ 2 ^ y.known.card := by
  cases b with
  | unit t =>
    obtain rfl : 1 = n := Option.some.inj h
    exact Nat.one_le_two_pow
  | binary b c =>
    obtain ⟨p, q, hp, hq, rfl⟩ := bodyLength?_binary.1 h
    have hp' := hy.two_mul_le b p hp
    have hq' := hy.two_mul_le c q hq
    omega

lemma doubled_relax (hr : r ∈ rules) (hy : Doubled rules y) (h : y.relax r = some y') :
    Doubled rules y' := by
  rcases relax_eq_some h with rfl | ⟨n, hn, -, himproves, rfl⟩
  · exact hy
  have hle := hy.bodyLength_le hn
  -- A nonterminal that becomes known makes room for the length of its body; one that is known
  -- already has room for more.
  have hroom : 2 * n ≤ 2 ^ (y.insert r.head n).known.card ∧
      2 ^ y.known.card ≤ 2 ^ (y.insert r.head n).known.card := by
    rw [known_insert]
    by_cases hknown : r.head ∈ y.known
    · obtain ⟨m, hm⟩ := mem_known.1 hknown
      have hm' := hy.two_mul_le _ m hm
      rw [improves, hm] at himproves
      have hlt : n < m := of_decide_eq_true himproves
      rw [Finset.insert_eq_of_mem hknown]
      omega
    · rw [Finset.card_insert_of_notMem hknown, Nat.pow_succ]
      omega
  refine ⟨fun a ha => ?_, fun a m hm => ?_⟩
  · rw [known_insert, Finset.mem_insert] at ha
    rcases ha with rfl | ha
    · exact ⟨r, hr, rfl⟩
    · exact hy.head a ha
  · rw [get?_insert] at hm
    split at hm
    · exact Option.some.inj hm ▸ hroom.1
    · exact (hy.two_mul_le a m hm).trans hroom.2

lemma Visits.doubled (h : Visits rules y r) : Doubled rules y := by
  refine h.induct ⟨fun a ha => ?_, fun _ _ h => absurd h (by simp)⟩
    fun _ hr _ _ hy hrelax => doubled_relax hr hy hrelax
  obtain ⟨n, hn⟩ := mem_known.1 ha
  exact absurd hn (by simp)

/-- With few heads, no length gets too large. -/
lemma bounded_of_heads {s : Finset Nonterminal} (hs : ∀ r ∈ rules, r.head ∈ s)
    (hcard : s.card < 64) : Bounded rules := by
  intro y r n hvisits hn
  have hy := hvisits.doubled
  have hsubset : y.known ⊆ s := by
    intro a ha
    obtain ⟨q, hq, rfl⟩ := hy.head a ha
    exact hs q hq
  calc n ≤ 2 ^ y.known.card := hy.bodyLength_le hn
    _ ≤ 2 ^ 63 := Nat.pow_le_pow_right (by decide)
        ((Finset.card_le_card hsubset).trans (Nat.le_of_lt_succ hcard))
    _ ≤ lengthLimit := by decide

end Yields

end ChomskyGrammar
