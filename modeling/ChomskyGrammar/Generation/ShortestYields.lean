/-
# Shortest yields

What the sweeps reach is packed with its properties as `ShortestYields`: yields are
positive, no rule can lower a yield any more, and every yield is attained by a rule.
-/
import ChomskyGrammar.Generation.Sweep

namespace ChomskyGrammar

namespace Yields

/-! ### What sweeps keep -/

/-- No yield is zero. -/
def Positive (y : Yields) : Prop := ∀ a n, y.get? a = some n → 0 < n

/-- Every yield is at least the length of a body of its nonterminal. -/
def Supported (rules : List Rule) (y : Yields) : Prop :=
  ∀ a m, y.get? a = some m →
    ∃ r ∈ rules, r.head = a ∧ ∃ n, y.bodyLength? r.body = some n ∧ n ≤ m

theorem bodyLength?_pos {y : Yields} (hy : y.Positive) {b : Body} {n : Nat}
    (h : y.bodyLength? b = some n) : 0 < n := by
  cases b with
  | unit t =>
    have hn : 1 = n := Option.some.inj h
    omega
  | binary b c =>
    obtain ⟨k, m, hk, -, rfl⟩ := bodyLength?_binary.1 h
    exact Nat.add_pos_left (hy b k hk) m

theorem get?_insert_le {y : Yields} {a b : Nonterminal} {n m : Nat}
    (him : y.improves a n = true) (h : y.get? b = some m) :
    ∃ k, (y.insert a n).get? b = some k ∧ k ≤ m := by
  rw [get?_insert]
  split
  · rename_i hba
    subst hba
    rw [improves] at him
    rw [h] at him
    exact ⟨n, rfl, Nat.le_of_lt (of_decide_eq_true him)⟩
  · exact ⟨m, h, Nat.le_refl m⟩

theorem bodyLength?_insert_le {y : Yields} {a : Nonterminal} {n m : Nat} {b : Body}
    (him : y.improves a n = true) (h : y.bodyLength? b = some m) :
    ∃ k, (y.insert a n).bodyLength? b = some k ∧ k ≤ m := by
  cases b with
  | unit t =>
    have hm : 1 = m := Option.some.inj h
    exact ⟨1, rfl, Nat.le_of_eq hm⟩
  | binary b c =>
    obtain ⟨p, q, hp, hq, rfl⟩ := bodyLength?_binary.1 h
    obtain ⟨p', hp', hpp⟩ := get?_insert_le him hp
    obtain ⟨q', hq', hqq⟩ := get?_insert_le him hq
    exact ⟨p' + q', bodyLength?_binary.2 ⟨p', q', hp', hq', rfl⟩, Nat.add_le_add hpp hqq⟩

theorem positive_relax {y y' : Yields} {r : Rule} (hy : y.Positive)
    (h : y.relax r = some y') : y'.Positive := by
  rcases relax_eq_some h with rfl | ⟨n, hn, -, -, rfl⟩
  · exact hy
  · intro a m hm
    rw [get?_insert] at hm
    split at hm
    · rw [← Option.some.inj hm]
      exact bodyLength?_pos hy hn
    · exact hy a m hm

theorem supported_relax {rules : List Rule} {y y' : Yields} {r : Rule} (hr : r ∈ rules)
    (hy : y.Supported rules) (h : y.relax r = some y') : y'.Supported rules := by
  rcases relax_eq_some h with rfl | ⟨n, hn, -, him, rfl⟩
  · exact hy
  · intro a m hm
    rw [get?_insert] at hm
    split at hm
    · rename_i ha
      obtain ⟨k, hk, hkn⟩ := bodyLength?_insert_le him hn
      exact ⟨r, hr, ha.symm, k, hk, Option.some.inj hm ▸ hkn⟩
    · obtain ⟨q, hq, hqa, l, hl, hlm⟩ := hy a m hm
      obtain ⟨k, hk, hkl⟩ := bodyLength?_insert_le him hl
      exact ⟨q, hq, hqa, k, hk, Nat.le_trans hkl hlm⟩

theorem positive_sweep {rs : List Rule} {y y' : Yields} (hy : y.Positive)
    (h : y.sweep rs = some y') : y'.Positive := by
  induction rs generalizing y with
  | nil => exact Option.some.inj h ▸ hy
  | cons r rs ih =>
    rw [sweep] at h
    split at h
    · exact absurd h (by simp)
    · rename_i y₁ hy₁
      exact ih (positive_relax hy hy₁) h

theorem supported_sweep {rules rs : List Rule} {y y' : Yields} (hrs : ∀ r ∈ rs, r ∈ rules)
    (hy : y.Supported rules) (h : y.sweep rs = some y') : y'.Supported rules := by
  induction rs generalizing y with
  | nil => exact Option.some.inj h ▸ hy
  | cons r rs ih =>
    rw [sweep] at h
    split at h
    · exact absurd h (by simp)
    · rename_i y₁ hy₁
      exact ih (fun q hq => hrs q (by simp [hq])) (supported_relax (hrs r (by simp)) hy hy₁) h

/-- What a settled computation has reached: everything that sweeps keep, and a state that
no rule changes. -/
theorem settle_eq_some {rules : List Rule} {y y' : Yields} (hp : y.Positive)
    (hs : y.Supported rules) (h : settle rules y = some y') :
    y'.Positive ∧ y'.Supported rules ∧ ∀ r ∈ rules, y'.relax r = some y' := by
  fun_induction settle rules y with
  | case1 y hsw => exact absurd h (by simp)
  | case2 y hsw =>
    obtain rfl := Option.some.inj h
    exact ⟨hp, hs, relax_eq_self_of_sweep (fun _ hr => hr) hsw⟩
  | case3 y y₁ hsw hne ih =>
    exact ih (positive_sweep hp hsw) (supported_sweep (fun _ hr => hr) hs hsw) h

theorem get?_le_of_relax_eq_self {y : Yields} {r : Rule} {n : Nat}
    (h : y.relax r = some y) (hn : y.bodyLength? r.body = some n) :
    ∃ m, y.get? r.head = some m ∧ m ≤ n := by
  rw [relax] at h
  rw [hn] at h
  simp only at h
  split at h
  · exact absurd h (by simp)
  · split at h
    · rename_i him
      have hg : y.get? r.head = some n := by
        have hins := congrArg (fun z : Yields => z.get? r.head) (Option.some.inj h)
        simp only [get?_insert, if_true] at hins
        exact hins.symm
      exact ⟨n, hg, Nat.le_refl n⟩
    · rename_i him
      rw [improves] at him
      cases hg : y.get? r.head with
      | none =>
        rw [hg] at him
        exact absurd rfl him
      | some m =>
        rw [hg] at him
        exact ⟨m, rfl, by simpa using him⟩

end Yields

/-- Yields that no sweep over the rules can change any more. -/
structure ShortestYields (rules : List Rule) where
  yields : Yields
  /-- No yield is zero. -/
  positive : yields.Positive
  /-- The yield of the head of a rule is known and at most the length of its body. -/
  le_of_rule : ∀ r ∈ rules, ∀ n, yields.bodyLength? r.body = some n →
    ∃ m, yields.get? r.head = some m ∧ m ≤ n
  /-- Every yield is at least the length of a body of its nonterminal. -/
  supported : yields.Supported rules

namespace ShortestYields

/-- The shortest yields under some rules; nothing if a length gets too large. -/
def compute? (rules : List Rule) : Option (ShortestYields rules) :=
  match h : Yields.settle rules .empty with
  | none => none
  | some y =>
    have hy := Yields.settle_eq_some (fun _ _ h => absurd h (by simp))
      (fun _ _ h => absurd h (by simp)) h
    some ⟨y, hy.1, fun r hr _ hn => Yields.get?_le_of_relax_eq_self (hy.2.2 r hr) hn, hy.2.1⟩

theorem compute?_eq_none_iff {rules : List Rule} :
    compute? rules = none ↔ Yields.settle rules .empty = none := by
  rw [compute?]
  split <;> simp_all

end ShortestYields

end ChomskyGrammar
