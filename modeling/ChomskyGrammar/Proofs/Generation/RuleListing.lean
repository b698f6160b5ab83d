/-
# Random words do not depend on how the rules are listed

The rules of a nonterminal are listed in some order, and which body is picked depends on where it
stands.  But they are brought into the order of candidates before anything is picked, and the
yields that decide about that order are the same for all listings.  So two lists with the same
rules, in whatever order and with whatever repetitions, have the same candidates
(`candidates_congr`); each pick is made from the same bodies, and the same words are made with the
same draws (`word_congr`).
-/
import ChomskyGrammar.Proofs.Generation.Expansion
import ChomskyGrammar.Proofs.Generation.LeastYields

namespace ChomskyGrammar

lemma Yields.bodyLength?_congr {y y' : Yields} (h : ∀ a, y.get? a = y'.get? a) (b : Body) :
    y.bodyLength? b = y'.bodyLength? b := by
  cases b with
  | unit t => rfl
  | binary b c => rw [bodyLength?, bodyLength?, h b, h c]

namespace Generation

variable {σ : Type} [RandomSource σ] {rules rules' : List Rule}

/-- The same rules give every nonterminal the same candidates. -/
lemma candidates_congr (ys : ShortestYields rules) (ys' : ShortestYields rules')
    (h : ∀ r, r ∈ rules ↔ r ∈ rules') (a : Nonterminal) :
    candidates rules ys.yields a = candidates rules' ys'.yields a := by
  refine SortedSet.ext_mem fun c => ?_
  rw [mem_candidates, mem_candidates, h,
    Yields.bodyLength?_congr (ys.get?_eq_of_mem_iff ys' h) c.body]

lemma pickBody_congr (ys : ShortestYields rules) (ys' : ShortestYields rules')
    (h : ∀ r, r ∈ rules ↔ r ∈ rules') (maxDepth depth : Nat) (a : Nonterminal) (s : σ) :
    pickBody ys maxDepth depth a s = pickBody ys' maxDepth depth a s := by
  rw [pickBody, pickBody, candidates_congr ys ys' h a]

/-- The same rules make the same random derivations, and fail in the same way. -/
theorem expand_congr (ys : ShortestYields rules) (ys' : ShortestYields rules')
    (h : ∀ r, r ∈ rules ↔ r ∈ rules') (maxDepth depth : Nat) (a : Nonterminal) (s : σ) :
    expand ys maxDepth depth a s = expand ys' maxDepth depth a s := by
  -- Both expansions pick the same body, so the induction is that of either of them.
  fun_induction expand ys maxDepth depth a s with
  | case1 depth a s e s₁ hpick => rw [expand_eq, ← pickBody_congr ys ys' h, hpick]
  | case2 depth a s n t s₁ hpick => rw [expand_eq, ← pickBody_congr ys ys' h, hpick]
  | case3 depth a s n b c s₁ hpick e s₂ hleft ihleft =>
    rw [expand_eq, ← pickBody_congr ys ys' h, hpick]
    simp only [← ihleft, hleft]
  | case4 depth a s n b c s₁ hpick left s₂ hleft e s₃ hright ihleft ihright =>
    rw [expand_eq, ← pickBody_congr ys ys' h, hpick]
    simp only [← ihleft, hleft, ← ihright, hright]
  | case5 depth a s n b c s₁ hpick left s₂ hleft right s₃ hright ihleft ihright =>
    rw [expand_eq, ← pickBody_congr ys ys' h, hpick]
    simp only [← ihleft, hleft, ← ihright, hright]

/-- **The same rules make the same random words with the same draws.** -/
theorem word_congr (h : ∀ r, r ∈ rules ↔ r ∈ rules')
    (hys : ShortestYields.compute? rules ≠ none) (hys' : ShortestYields.compute? rules' ≠ none)
    (maxDepth : Nat) (a : Nonterminal) (s : σ) :
    word rules maxDepth a s = word rules' maxDepth a s := by
  obtain ⟨ys, hys⟩ := Option.ne_none_iff_exists'.1 hys
  obtain ⟨ys', hys'⟩ := Option.ne_none_iff_exists'.1 hys'
  have htree : tree rules maxDepth a s = tree rules' maxDepth a s := by
    simp only [tree, hys, hys', expand_congr ys ys' h]
  rw [word, word, htree]

end Generation

end ChomskyGrammar
