/-
# Sweeps

Yields are found by repeated sweeps over the rules: a rule whose body has a known length
lowers the yield of its head to that length, or makes it known.  The sweeps end when one
of them changes nothing.  They do end (`sweep_potential`), because every change lowers a
number: the sum over all rules of the yield of the head, where an unknown yield counts for
more than any known one.

A length must not exceed `lengthLimit`; a sum beyond it spoils the whole computation.
-/
import ChomskyGrammar.Generation.Yields

namespace ChomskyGrammar

/-- The largest length that can be reckoned with. -/
def lengthLimit : Nat := 0xFFFFFFFFFFFFFFFF

namespace Yields

/-- Whether a length is news about a nonterminal: its first, or lower than the known one. -/
def improves (y : Yields) (a : Nonterminal) (n : Nat) : Bool :=
  match y.get? a with
  | none => true
  | some m => decide (n < m)

/-- Lets one rule lower the yield of its head; nothing if a length gets too large. -/
def relax (y : Yields) (r : Rule) : Option Yields :=
  match y.bodyLength? r.body with
  | none => some y
  | some n =>
    if lengthLimit < n then none
    else if y.improves r.head n then some (y.insert r.head n)
    else some y

/-- Lets all rules lower yields, one after the other. -/
def sweep (y : Yields) : List Rule → Option Yields
  | [] => some y
  | r :: rs =>
    match y.relax r with
    | none => none
    | some y' => y'.sweep rs

/-! ### Sweeps come to an end -/

/-- The known length of a nonterminal, or a number above all lengths. -/
def height (y : Yields) (a : Nonterminal) : Nat := (y.get? a).getD (lengthLimit + 1)

/-- The sum of the heights of the heads of some rules. -/
def potential (rules : List Rule) (y : Yields) : Nat :=
  rules.foldr (fun r n => y.height r.head + n) 0

theorem height_insert_le {y : Yields} {a : Nonterminal} {n : Nat} (hn : n ≤ lengthLimit)
    (h : y.improves a n = true) (b : Nonterminal) : (y.insert a n).height b ≤ y.height b := by
  unfold height
  rw [get?_insert]
  split
  · rename_i hba
    subst hba
    rw [improves] at h
    cases hg : y.get? b with
    | none => exact Nat.le_succ_of_le hn
    | some m =>
      rw [hg] at h
      exact Nat.le_of_lt (of_decide_eq_true h)
  · exact Nat.le_refl _

theorem height_insert_self_lt {y : Yields} {a : Nonterminal} {n : Nat} (hn : n ≤ lengthLimit)
    (h : y.improves a n = true) : (y.insert a n).height a < y.height a := by
  unfold height
  rw [get?_insert, if_pos rfl]
  rw [improves] at h
  cases hg : y.get? a with
  | none => exact Nat.lt_succ_of_le hn
  | some m =>
    rw [hg] at h
    exact of_decide_eq_true h

theorem potential_insert_le {y : Yields} {a : Nonterminal} {n : Nat} (hn : n ≤ lengthLimit)
    (h : y.improves a n = true) (rules : List Rule) :
    potential rules (y.insert a n) ≤ potential rules y := by
  induction rules with
  | nil => exact Nat.le_refl _
  | cons r rs ih => exact Nat.add_le_add (height_insert_le hn h r.head) ih

theorem potential_insert_lt {y : Yields} {r : Rule} {n : Nat} (hn : n ≤ lengthLimit)
    (h : y.improves r.head n = true) {rules : List Rule} (hr : r ∈ rules) :
    potential rules (y.insert r.head n) < potential rules y := by
  induction rules with
  | nil => exact absurd hr (by simp)
  | cons q qs ih =>
    rcases List.mem_cons.1 hr with rfl | hr
    · exact Nat.add_lt_add_of_lt_of_le (height_insert_self_lt hn h) (potential_insert_le hn h qs)
    · exact Nat.add_lt_add_of_le_of_lt (height_insert_le hn h q.head) (ih hr)

/-- What one rule can do: nothing, or lower the yield of its head to the length of its
body. -/
theorem relax_eq_some {y y' : Yields} {r : Rule} (h : y.relax r = some y') :
    y' = y ∨ ∃ n, y.bodyLength? r.body = some n ∧ n ≤ lengthLimit ∧
      y.improves r.head n = true ∧ y' = y.insert r.head n := by
  rw [relax] at h
  split at h
  · exact Or.inl (Option.some.inj h).symm
  · rename_i n hn
    split at h
    · exact absurd h (by simp)
    · rename_i hle
      split at h
      · rename_i him
        exact Or.inr ⟨n, hn, Nat.le_of_not_lt hle, him, (Option.some.inj h).symm⟩
      · exact Or.inl (Option.some.inj h).symm

theorem relax_potential {y y' : Yields} {r : Rule} {rules : List Rule} (hr : r ∈ rules)
    (h : y.relax r = some y') : y' = y ∨ potential rules y' < potential rules y := by
  rcases relax_eq_some h with h | ⟨n, -, hle, him, rfl⟩
  · exact Or.inl h
  · exact Or.inr (potential_insert_lt hle him hr)

theorem sweep_potential {rules : List Rule} {rs : List Rule} {y y' : Yields}
    (hrs : ∀ r ∈ rs, r ∈ rules) (h : y.sweep rs = some y') :
    y' = y ∨ potential rules y' < potential rules y := by
  induction rs generalizing y with
  | nil => exact Or.inl (Option.some.inj h).symm
  | cons r rs ih =>
    rw [sweep] at h
    split at h
    · exact absurd h (by simp)
    · rename_i y₁ hy₁
      have h₁ := relax_potential (hrs r (by simp)) hy₁
      have h₂ := ih (fun q hq => hrs q (by simp [hq])) h
      rcases h₁ with rfl | h₁
      · exact h₂
      · rcases h₂ with rfl | h₂
        · exact Or.inr h₁
        · exact Or.inr (Nat.lt_trans h₂ h₁)

/-- If a sweep changes nothing, none of its rules does. -/
theorem relax_eq_self_of_sweep {rules rs : List Rule} {y : Yields}
    (hrs : ∀ r ∈ rs, r ∈ rules) (h : y.sweep rs = some y) : ∀ r ∈ rs, y.relax r = some y := by
  induction rs with
  | nil => exact fun r hr => absurd hr (by simp)
  | cons q qs ih =>
    rw [sweep] at h
    split at h
    · exact absurd h (by simp)
    · rename_i y₁ hy₁
      have h₁ := relax_potential (hrs q (by simp)) hy₁
      have h₂ := sweep_potential (fun r hr => hrs r (by simp [hr])) h
      have hy : y₁ = y := by
        rcases h₁ with h₁ | h₁
        · exact h₁
        · rcases h₂ with h₂ | h₂
          · exact h₂.symm
          · omega
      subst hy
      intro r hr
      rcases List.mem_cons.1 hr with rfl | hr
      · exact hy₁
      · exact ih (fun r hr => hrs r (by simp [hr])) h r hr

/-- Sweeps until nothing changes; nothing if a length gets too large. -/
def settle (rules : List Rule) (y : Yields) : Option Yields :=
  match _h : y.sweep rules with
  | none => none
  -- A sweep that has changed something has made the potential smaller.
  | some y' => if y' = y then some y else settle rules y'
termination_by potential rules y
decreasing_by
  rename_i hne
  exact (sweep_potential (fun _ hr => hr) _h).resolve_left hne

end Yields

end ChomskyGrammar
