/-
# Random derivations do not get stuck

An expansion can fail at any depth, at a nonterminal that has nothing to be picked from.  It
does not: the candidates of a nonterminal are bodies of known length, so both halves of a pair
that is picked have a known yield, and a nonterminal with a known yield has a candidate.  So
an expansion of a nonterminal with a known yield ends well if every pick does
(`exists_expand`), and every nonterminal that derives a word has a known yield
(`ShortestYields.exists_yield_le_of_derives`).
-/
import ChomskyGrammar.Proofs.Generation.Expansion
import ChomskyGrammar.Proofs.Generation.LeastYields
import ChomskyGrammar.Proofs.Random.Tireless

namespace ChomskyGrammar

namespace Generation

open RandomSource (Tireless)

variable {σ : Type} [RandomSource σ] {rules : List Rule} {ys : ShortestYields rules}
  {maxDepth depth : Nat} {a : Nonterminal} {s : σ}

/-! ### What there is to pick from -/

/-- A nonterminal with a known yield has a candidate. -/
lemma exists_mem_candidates {n : Nat} (h : ys.yields.get? a = some n) :
    ∃ c, c ∈ candidates rules ys.yields a := by
  obtain ⟨⟨a', body⟩, hr, rfl, k, hk, -⟩ := ys.supported a n h
  exact ⟨⟨k, body⟩, mem_candidates.2 ⟨hr, hk⟩⟩

lemma eligible_ne_nil {cs : List Candidate} (h : cs ≠ []) : eligible maxDepth depth cs ≠ [] := by
  cases cs with
  | nil => exact absurd rfl h
  | cons c cs =>
    rw [eligible]
    split <;> exact List.cons_ne_nil _ _

/-- Something is picked for a nonterminal with a known yield. -/
lemma exists_pickBody (maxDepth depth : Nat) (hs : Tireless s) {n : Nat}
    (h : ys.yields.get? a = some n) :
    ∃ c s', pickBody ys maxDepth depth a s = .ok c s' ∧ Tireless s' := by
  obtain ⟨c, hc⟩ := exists_mem_candidates h
  have hne : eligible maxDepth depth (candidates rules ys.yields a).toList ≠ [] :=
    eligible_ne_nil (List.ne_nil_of_mem hc)
  obtain ⟨d, ds, hd⟩ := List.exists_cons_of_ne_nil hne
  obtain ⟨e, s', he, hs'⟩ := hs.exists_pick d ds
  exact ⟨e, s', by simp only [pickBody, hd, he], hs'⟩

/-- Nothing is picked for a nonterminal without rules, and the source is left alone. -/
lemma pickBody_of_no_rule (h : ∀ b, (⟨a, b⟩ : Rule) ∉ rules) :
    pickBody ys maxDepth depth a s = .error (.noRules a.char) s := by
  have hnil : (candidates rules ys.yields a).toList = [] := by
    refine List.eq_nil_iff_forall_not_mem.2 fun c hc => ?_
    exact h c.body (mem_candidates.1 hc).1
  simp only [pickBody, hnil, eligible]

/-! ### Expansions -/

/-- Both halves of a pair that is picked have a known yield. -/
lemma exists_yields_of_pickBody {s' : σ} {k : Nat} {b c : Nonterminal}
    (h : pickBody ys maxDepth depth a s = .ok ⟨k, .binary b c⟩ s') :
    (∃ m, ys.yields.get? b = some m) ∧ ∃ n, ys.yields.get? c = some n := by
  have hc : (⟨k, .binary b c⟩ : Candidate) ∈ candidates rules ys.yields a :=
    mem_of_mem_eligible (mem_of_pickBody h)
  obtain ⟨m, n, hm, hn, -⟩ := Yields.bodyLength?_binary.1 (mem_candidates.1 hc).2
  exact ⟨⟨m, hm⟩, n, hn⟩

/-- **Expanding a nonterminal with a known yield does not fail.** -/
theorem exists_expand (maxDepth depth : Nat) {a : Nonterminal} {s : σ} (hs : Tireless s)
    {n : Nat} (h : ys.yields.get? a = some n) :
    ∃ d s', expand ys maxDepth depth a s = .ok d s' ∧ Tireless s' := by
  obtain ⟨⟨k, body⟩, s₁, hpick, hs₁⟩ := exists_pickBody maxDepth depth hs h
  cases body with
  | unit t => exact ⟨.unit a t, s₁, expand_eq_ok_iff.2 (.inl ⟨k, t, hpick, rfl⟩), hs₁⟩
  | binary b c =>
    obtain ⟨⟨m, hm⟩, n, hn⟩ := exists_yields_of_pickBody hpick
    obtain ⟨left, s₂, hleft, hs₂⟩ := exists_expand maxDepth (depth + 1) hs₁ hm
    obtain ⟨right, s₃, hright, hs₃⟩ := exists_expand maxDepth (depth + 1) hs₂ hn
    refine ⟨.binary a left right, s₃, expand_eq_ok_iff.2 (.inr ?_), hs₃⟩
    exact ⟨k, b, c, left, right, s₁, s₂, hpick, hleft, hright, rfl⟩
-- The recursion is that of the expansion itself.
termination_by (maxDepth - depth, (ys.yields.get? a).getD 0)
decreasing_by
  · exact decreases_of_pickBody hpick b (.inl rfl)
  · exact decreases_of_pickBody hpick c (.inr rfl)

/-! ### Words -/

/-- A nonterminal that derives a word has a random word. -/
theorem exists_word (hys : ShortestYields.compute? rules ≠ none) (maxDepth : Nat)
    (hs : Tireless s) {w : List Terminal} (h : Derives rules a w) :
    ∃ w' s', word rules maxDepth a s = .ok w' s' := by
  obtain ⟨ys, hys⟩ := Option.ne_none_iff_exists'.1 hys
  obtain ⟨n, hn, -⟩ := ys.exists_yield_le_of_derives h
  obtain ⟨d, s', hd, -⟩ := exists_expand maxDepth 0 hs hn
  exact ⟨d.word, s', word_eq_ok_iff.2 ⟨ys, d, hys, hd, rfl⟩⟩

/-- A nonterminal without rules has no random word, and no pick is made to find that out. -/
lemma word_of_no_rule (hys : ShortestYields.compute? rules ≠ none)
    (h : ∀ b, (⟨a, b⟩ : Rule) ∉ rules) :
    word rules maxDepth a s = .error (.noRules a.char) s := by
  obtain ⟨ys, hys⟩ := Option.ne_none_iff_exists'.1 hys
  have hexpand : expand ys maxDepth 0 a s = .error (.noRules a.char) s := by
    rw [expand, pickBody_of_no_rule h]
  simp only [word, tree, hys, hexpand]

end Generation

end ChomskyGrammar
