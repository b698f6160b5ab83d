/-
# Candidates

The bodies that a nonterminal may be expanded to, shortest first.  At and beyond a
given depth only bodies of the least length are eligible, and then both halves of a pair
have a smaller yield than the nonterminal that it replaces
(`yield_lt_of_mem_eligible`); so from that depth on every expansion comes to an end.
-/
import ChomskyGrammar.Generation.ShortestYields

namespace ChomskyGrammar

/-- A body that may be picked, with its length. -/
structure Candidate where
  /-- The length of the shortest words that the body derives. -/
  length : Nat
  body : Body
deriving DecidableEq

/-- Candidates are ordered by length and then by body. -/
instance : Ranked Candidate where
  rank c := c.length * Body.rankBound + c.body.rank
  rank_injective := by
    rintro ⟨m, b⟩ ⟨n, c⟩ h
    obtain ⟨h₁, h₂⟩ := eq_and_eq_of_mul_add_eq (Body.rank_lt_rankBound b)
      (Body.rank_lt_rankBound c) h
    cases h₁
    rw [Body.rank_inj h₂]

theorem Candidate.length_le_of_rank_lt {c d : Candidate} (h : Ranked.rank c < Ranked.rank d) :
    c.length ≤ d.length := by
  rcases Nat.lt_or_ge d.length c.length with hlt | hge
  · have h₁ : (d.length + 1) * Body.rankBound ≤ c.length * Body.rankBound :=
      Nat.mul_le_mul_right _ hlt
    have h₂ : (d.length + 1) * Body.rankBound = d.length * Body.rankBound + Body.rankBound :=
      Nat.succ_mul _ _
    have h₃ := Body.rank_lt_rankBound d.body
    have h₄ : c.length * Body.rankBound + c.body.rank <
      d.length * Body.rankBound + d.body.rank := h
    omega
  · exact hge

namespace Generation

/-- The bodies of a nonterminal whose length is known, shortest first.  Their lengths are not
checked again: what the sweeps have computed has passed all checks. -/
def candidates (rules : List Rule) (y : Yields) (a : Nonterminal) : SortedSet Candidate :=
  SortedSet.ofList <| rules.filterMap fun r =>
    if r.head = a then (y.bodyLength? r.body).map fun n => ⟨n, r.body⟩ else none

theorem mem_candidates {rules : List Rule} {y : Yields} {a : Nonterminal} {c : Candidate} :
    c ∈ candidates rules y a ↔
      (⟨a, c.body⟩ : Rule) ∈ rules ∧ y.bodyLength? c.body = some c.length := by
  simp only [candidates, SortedSet.mem_ofList, List.mem_filterMap, Option.ite_none_right_eq_some,
    Option.map_eq_some_iff]
  constructor
  · rintro ⟨⟨a', b⟩, hr, rfl, n, hn, rfl⟩
    exact ⟨hr, hn⟩
  · rintro ⟨hr, hn⟩
    exact ⟨⟨a, c.body⟩, hr, rfl, c.length, hn, rfl⟩

/-- The candidates that may be picked: all of them, or at and beyond the greatest depth
those of the least length. -/
def eligible (maxDepth depth : Nat) (cs : List Candidate) : List Candidate :=
  match cs with
  | [] => []
  | c :: rest =>
    if maxDepth ≤ depth then c :: rest.takeWhile fun d => decide (d.length = c.length)
    else c :: rest

theorem mem_of_mem_eligible {maxDepth depth : Nat} {cs : List Candidate} {c : Candidate}
    (h : c ∈ eligible maxDepth depth cs) : c ∈ cs := by
  cases cs with
  | nil => exact h
  | cons d ds =>
    simp only [eligible] at h
    split at h
    · rcases List.mem_cons.1 h with rfl | h
      · exact List.mem_cons_self
      · exact List.mem_cons_of_mem d ((List.takeWhile_sublist _).mem h)
    · exact h

theorem length_eq_of_mem_eligible {maxDepth depth : Nat} (hd : maxDepth ≤ depth)
    {c d : Candidate} {ds : List Candidate} (h : c ∈ eligible maxDepth depth (d :: ds)) :
    c.length = d.length := by
  simp only [eligible, if_pos hd] at h
  rcases List.mem_cons.1 h with rfl | h
  · rfl
  · exact of_decide_eq_true (List.all_eq_true.1 List.all_takeWhile c h)

/-- At and beyond the greatest depth, the length of a body that may be picked is at most
the yield of its nonterminal. -/
theorem length_le_of_mem_eligible {rules : List Rule} (ys : ShortestYields rules)
    {maxDepth depth : Nat} (hd : maxDepth ≤ depth) {a : Nonterminal} {c : Candidate}
    (h : c ∈ eligible maxDepth depth (candidates rules ys.yields a).toList) :
    ∃ m, ys.yields.get? a = some m ∧ c.length ≤ m := by
  have hc := mem_candidates.1 (show c ∈ candidates rules ys.yields a from mem_of_mem_eligible h)
  obtain ⟨m, hm, -⟩ := ys.le_of_rule _ hc.1 _ hc.2
  refine ⟨m, hm, ?_⟩
  obtain ⟨r, hr, hra, n, hn, hnm⟩ := ys.supported a m hm
  have hr' : (⟨a, r.body⟩ : Rule) ∈ rules := by
    rw [← hra]
    exact hr
  have hmem : (⟨n, r.body⟩ : Candidate) ∈ candidates rules ys.yields a :=
    mem_candidates.2 ⟨hr', hn⟩
  have hsorted := (candidates rules ys.yields a).ascending
  cases hl : (candidates rules ys.yields a).toList with
  | nil =>
    rw [SortedSet.mem_iff, hl] at hmem
    exact absurd hmem (by simp)
  | cons d ds =>
    rw [hl] at h hsorted
    rw [SortedSet.mem_iff, hl] at hmem
    rw [length_eq_of_mem_eligible hd h]
    refine Nat.le_trans ?_ hnm
    rcases List.mem_cons.1 hmem with heq | hin
    · exact Nat.le_of_eq (congrArg Candidate.length heq.symm)
    · exact Candidate.length_le_of_rank_lt ((List.pairwise_cons.1 hsorted).1 _ hin)

/-- At and beyond the greatest depth, both halves of a pair that may be picked have a
smaller yield than its nonterminal. -/
theorem yield_lt_of_mem_eligible {rules : List Rule} (ys : ShortestYields rules)
    {maxDepth depth : Nat} (hd : maxDepth ≤ depth) {a b c : Nonterminal} {n : Nat}
    (h : (⟨n, .binary b c⟩ : Candidate) ∈
      eligible maxDepth depth (candidates rules ys.yields a).toList) :
    (ys.yields.get? b).getD 0 < (ys.yields.get? a).getD 0 ∧
      (ys.yields.get? c).getD 0 < (ys.yields.get? a).getD 0 := by
  obtain ⟨m, hm, hle⟩ := length_le_of_mem_eligible ys hd h
  have hc := mem_candidates.1
    (show (⟨n, .binary b c⟩ : Candidate) ∈ candidates rules ys.yields a from
      mem_of_mem_eligible h)
  obtain ⟨p, q, hp, hq, hpq⟩ := Yields.bodyLength?_binary.1 hc.2
  have hp' := ys.positive b p hp
  have hq' := ys.positive c q hq
  rw [hm, hp, hq]
  simp only [Option.getD_some] at hpq hle ⊢
  omega

end Generation

end ChomskyGrammar
