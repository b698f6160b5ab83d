/-
# Random derivations follow the rules

Whatever a random source picks, it picks bodies of rules of the nonterminal that is expanded.
So a random derivation that comes to an end is a derivation tree that follows the rules
(`follows_of_expand`), and a random word is derived from the nonterminal that it was made
from (`derives_of_word`).
-/
import ChomskyGrammar.Generation.Word
import ChomskyGrammar.Proofs.Derivation.Language

namespace ChomskyGrammar

namespace Generation

variable {σ : Type} [RandomSource σ] {rules : List Rule} {ys : ShortestYields rules}
  {maxDepth depth : Nat} {a : Nonterminal} {s s' : σ}

lemma rule_mem_of_pickBody {c : Candidate} (h : pickBody ys maxDepth depth a s = .ok c s') :
    (⟨a, c.body⟩ : Rule) ∈ rules := by
  have hc : c ∈ candidates rules ys.yields a := mem_of_mem_eligible (mem_of_pickBody h)
  exact (mem_candidates.1 hc).1

/-- One level of an expansion: a pick, and for a pair the expansions of its halves. -/
lemma expand_eq :
    expand ys maxDepth depth a s =
      match pickBody ys maxDepth depth a s with
      | .error e s₁ => .error e s₁
      | .ok ⟨_, .unit t⟩ s₁ => .ok (.unit a t) s₁
      | .ok ⟨_, .binary b c⟩ s₁ =>
        match expand ys maxDepth (depth + 1) b s₁ with
        | .error e s₂ => .error e s₂
        | .ok left s₂ =>
          match expand ys maxDepth (depth + 1) c s₂ with
          | .error e s₃ => .error e s₃
          | .ok right s₃ => .ok (.binary a left right) s₃ := by
  rw [expand]
  split <;> rename_i hpick <;> exact hpick ▸ rfl

/-- How an expansion succeeds: a letter is picked, or a pair is picked and both of its halves
are expanded, one level deeper and one after the other. -/
lemma expand_eq_ok_iff {d : DerivationTree} :
    expand ys maxDepth depth a s = .ok d s' ↔
      (∃ n t, pickBody ys maxDepth depth a s = .ok ⟨n, .unit t⟩ s' ∧ d = .unit a t) ∨
      ∃ n b c left right s₁ s₂, pickBody ys maxDepth depth a s = .ok ⟨n, .binary b c⟩ s₁ ∧
        expand ys maxDepth (depth + 1) b s₁ = .ok left s₂ ∧
        expand ys maxDepth (depth + 1) c s₂ = .ok right s' ∧ d = .binary a left right := by
  rw [expand]
  constructor
  · intro h
    split at h
    · exact absurd h (by simp)
    · rename_i n t s₁ hpick
      obtain ⟨rfl, rfl⟩ := EStateM.Result.ok.inj h
      exact .inl ⟨n, t, hpick, rfl⟩
    · rename_i n b c s₁ hpick
      split at h
      · exact absurd h (by simp)
      · rename_i left s₂ hleft
        split at h
        · exact absurd h (by simp)
        · rename_i right s₃ hright
          obtain ⟨rfl, rfl⟩ := EStateM.Result.ok.inj h
          exact .inr ⟨n, b, c, left, right, s₁, s₂, hpick, hleft, hright, rfl⟩
  · rintro (⟨n, t, hpick, rfl⟩ | ⟨n, b, c, left, right, s₁, s₂, hpick, hleft, hright, rfl⟩)
    · split <;> simp_all
    · split <;> simp_all

/-- **A random derivation is a derivation tree of its nonterminal that follows the rules.** -/
theorem follows_of_expand {d : DerivationTree} (h : expand ys maxDepth depth a s = .ok d s') :
    d.root = a ∧ d.Follows rules := by
  induction d generalizing depth a s s' with
  | unit x t =>
    rcases expand_eq_ok_iff.1 h with ⟨n, t', hpick, hd⟩ | ⟨_, _, _, _, _, _, _, _, _, _, hd⟩
    · obtain ⟨rfl, rfl⟩ := DerivationTree.unit.inj hd
      exact ⟨rfl, rule_mem_of_pickBody hpick⟩
    · exact absurd hd (by simp)
  | binary x left right ihl ihr =>
    rcases expand_eq_ok_iff.1 h with ⟨_, _, _, hd⟩ | ⟨n, b, c, l, r, s₁, s₂, hpick, hl, hr, hd⟩
    · exact absurd hd (by simp)
    · obtain ⟨rfl, rfl, rfl⟩ := DerivationTree.binary.inj hd
      obtain ⟨rfl, hleft⟩ := ihl hl
      obtain ⟨rfl, hright⟩ := ihr hr
      exact ⟨rfl, rule_mem_of_pickBody hpick, hleft, hright⟩

/-- How a leaf is made. -/
lemma expand_eq_unit_iff {x : Nonterminal} {t : Terminal} :
    expand ys maxDepth depth a s = .ok (.unit x t) s' ↔
      x = a ∧ ∃ n, pickBody ys maxDepth depth a s = .ok ⟨n, .unit t⟩ s' := by
  rw [expand_eq_ok_iff]
  constructor
  · rintro (⟨n, t', hpick, hd⟩ | ⟨_, _, _, _, _, _, _, _, _, _, hd⟩)
    · obtain ⟨rfl, rfl⟩ := DerivationTree.unit.inj hd
      exact ⟨rfl, n, hpick⟩
    · exact absurd hd (by simp)
  · rintro ⟨rfl, n, hpick⟩
    exact .inl ⟨n, t, hpick, rfl⟩

/-- How a tree with two halves is made. -/
lemma expand_eq_binary_iff {x : Nonterminal} {left right : DerivationTree} :
    expand ys maxDepth depth a s = .ok (.binary x left right) s' ↔
      x = a ∧ ∃ n s₁ s₂,
        pickBody ys maxDepth depth a s = .ok ⟨n, .binary left.root right.root⟩ s₁ ∧
        expand ys maxDepth (depth + 1) left.root s₁ = .ok left s₂ ∧
        expand ys maxDepth (depth + 1) right.root s₂ = .ok right s' := by
  constructor
  · intro h
    rcases expand_eq_ok_iff.1 h with ⟨_, _, _, hd⟩ | ⟨n, b, c, l, r, s₁, s₂, hpick, hl, hr, hd⟩
    · exact absurd hd (by simp)
    · obtain ⟨rfl, rfl, rfl⟩ := DerivationTree.binary.inj hd
      obtain ⟨rfl, -⟩ := follows_of_expand hl
      obtain ⟨rfl, -⟩ := follows_of_expand hr
      exact ⟨rfl, n, s₁, s₂, hpick, hl, hr⟩
  · rintro ⟨rfl, n, s₁, s₂, hpick, hl, hr⟩
    exact expand_eq_ok_iff.2 (.inr ⟨n, _, _, left, right, s₁, s₂, hpick, hl, hr, rfl⟩)

lemma word_eq_ok_iff {w : List Terminal} :
    word rules maxDepth a s = .ok w s' ↔
      ∃ ys d, ShortestYields.compute? rules = some ys ∧
        expand ys maxDepth 0 a s = .ok d s' ∧ w = d.word := by
  constructor
  · intro h
    rw [word] at h
    split at h
    · exact absurd h (by simp)
    · rename_i d s₁ hd
      obtain ⟨rfl, rfl⟩ := EStateM.Result.ok.inj h
      rw [tree] at hd
      split at hd
      · exact absurd hd (by simp)
      · rename_i ys hys
        exact ⟨ys, d, hys, hd, rfl⟩
  · rintro ⟨ys, d, hys, hd, rfl⟩
    simp only [word, tree, hys, hd]

/-- A random word is derived from the nonterminal that it was made from. -/
theorem derives_of_word {w : List Terminal} (h : word rules maxDepth a s = .ok w s') :
    Derives rules a w := by
  obtain ⟨ys, d, -, hd, rfl⟩ := word_eq_ok_iff.1 h
  obtain ⟨rfl, hfollows⟩ := follows_of_expand hd
  exact derives_of_follows hfollows

end Generation

end ChomskyGrammar
