/-
# One pick for each node

A random derivation takes one pick for each of its nodes, in the order in which the nodes come if
the tree is read from the top and from left to right (`record_of_expand`).  Nothing is picked where
there is nothing to pick from, a single candidate is picked like any other, and the depth decides
about the candidates only, not about the number of picks.  A word of `n` letters has a derivation of
`2 * n - 1` nodes, so it takes as many picks (`picks_of_word`), and as many draws as that, with one
more for each draw that is rejected (`draws_of_random_word`).
-/
import Mathlib.Data.List.Forall2
import ChomskyGrammar.Proofs.Generation.RandomWords
import ChomskyGrammar.Proofs.Random.Picks

namespace ChomskyGrammar

namespace DerivationTree

/-- A node of a derivation: how deep it is, and the rule that is applied there. -/
structure Node where
  depth : Nat
  rule : Rule

/-- The nodes of a tree whose root has a given depth, each one before those of its left half, and
these before those of its right half. -/
def preorder (depth : Nat) : DerivationTree → List Node
  | unit a t => [⟨depth, ⟨a, .unit t⟩⟩]
  | binary a left right =>
    ⟨depth, ⟨a, .binary left.root right.root⟩⟩ ::
      (left.preorder (depth + 1) ++ right.preorder (depth + 1))

lemma length_preorder (d : DerivationTree) (depth : Nat) :
    (d.preorder depth).length = d.nodeCount := by
  induction d generalizing depth with
  | unit a t => rfl
  | binary a left right ihl ihr =>
    rw [preorder, List.length_cons, List.length_append, ihl, ihr, nodeCount]

end DerivationTree

namespace Generation

open DerivationTree (Node)
open Grammar (brackets reachable_brackets start_brackets compute?_brackets_ne_none)

variable {σ : Type} [RandomSource σ] {rules : List Rule} {ys : ShortestYields rules}
  {maxDepth depth : Nat} {a : Nonterminal} {start : Option Nonterminal} {s s' : σ}
  {w : List Terminal}

/-! ### The pick of a node -/

/-- Whether a pick is the one that decides about a node: the body of its rule is picked from those
that are eligible for its nonterminal at its depth. -/
structure Decides (ys : ShortestYields rules) (maxDepth : Nat) (node : Node) (p : Pick σ) :
    Prop where
  count_eq : p.count =
    (eligible maxDepth node.depth (candidates rules ys.yields node.rule.head).toList).length
  picked : ∃ c, pickBody ys maxDepth node.depth node.rule.head p.before = .ok c p.after ∧
    c.body = node.rule.body

/-- What is picked is picked from a list that is not empty. -/
lemma choose?_of_pickBody {c : Candidate} (h : pickBody ys maxDepth depth a s = .ok c s') :
    ∃ x xs, eligible maxDepth depth (candidates rules ys.yields a).toList = x :: xs ∧
      RandomSource.choose? s x xs = some (c, s') := by
  rw [pickBody] at h
  split at h
  · exact absurd h (by simp)
  · rename_i x xs heligible
    split at h
    · exact absurd h (by simp)
    · rename_i d s₁ hchoose
      obtain ⟨rfl, rfl⟩ := EStateM.Result.ok.inj h
      exact ⟨x, xs, heligible, hchoose⟩

lemma Decides.made {node : Node} {p : Pick σ} (h : Decides ys maxDepth node p) : p.Made := by
  obtain ⟨c, hpick, -⟩ := h.picked
  obtain ⟨x, xs, heligible, hchoose⟩ := choose?_of_pickBody hpick
  exact ⟨_, x, xs, c, hchoose, by rw [h.count_eq, heligible]⟩

/-- The pick that an expansion makes for its own nonterminal. -/
def ownPick (ys : ShortestYields rules) (maxDepth depth : Nat) (a : Nonterminal) (s s' : σ) :
    Pick σ :=
  ⟨(eligible maxDepth depth (candidates rules ys.yields a).toList).length, s, s'⟩

/-- The pick of a body is recorded. -/
lemma pickBody_recorded {c : Candidate} (h : pickBody ys maxDepth depth a s = .ok c s')
    (ps : List (Pick σ)) :
    pickBody ys maxDepth depth a (⟨s, ps⟩ : Recorded σ) =
      .ok c ⟨s', ps ++ [ownPick ys maxDepth depth a s s']⟩ := by
  obtain ⟨x, xs, heligible, hchoose⟩ := choose?_of_pickBody h
  have hrecorded : RandomSource.choose? (⟨s, ps⟩ : Recorded σ) x xs =
      some (c, ⟨s', ps ++ [⟨(x :: xs).length, s, s'⟩]⟩) := by
    show Option.map _ (RandomSource.choose? s x xs) = _
    rw [hchoose]
    rfl
  rw [pickBody, ownPick, heligible]
  simp only [hrecorded]

/-! ### The picks of a derivation -/

/-- **A derivation takes one pick for each of its nodes**, in preorder. -/
theorem record_of_expand {d : DerivationTree} (h : expand ys maxDepth depth a s = .ok d s') :
    ∃ ps, (∀ qs, expand ys maxDepth depth a (⟨s, qs⟩ : Recorded σ) = .ok d ⟨s', qs ++ ps⟩) ∧
      Pick.Chain s ps s' ∧ List.Forall₂ (Decides ys maxDepth) (d.preorder depth) ps := by
  induction d generalizing depth a s s' with
  | unit x t =>
    obtain ⟨rfl, n, hpick⟩ := expand_eq_unit_iff.1 h
    let p := ownPick ys maxDepth depth x s s'
    have hp : Decides ys maxDepth ⟨depth, x, .unit t⟩ p := ⟨rfl, _, hpick, rfl⟩
    refine ⟨[p], fun qs => ?_, .cons (p := p) (.nil s'), .cons hp .nil⟩
    exact expand_eq_unit_iff.2 ⟨rfl, n, pickBody_recorded hpick qs⟩
  | binary x left right ihl ihr =>
    obtain ⟨rfl, n, s₁, s₂, hpick, hl, hr⟩ := expand_eq_binary_iff.1 h
    obtain ⟨ps, hleft, hchain, hps⟩ := ihl hl
    obtain ⟨ps', hright, hchain', hps'⟩ := ihr hr
    let p := ownPick ys maxDepth depth x s s₁
    have hp : Decides ys maxDepth ⟨depth, x, .binary left.root right.root⟩ p :=
      ⟨rfl, _, hpick, rfl⟩
    refine ⟨p :: (ps ++ ps'), fun qs => ?_, .cons (p := p) (hchain.append hchain'),
      .cons hp (List.rel_append hps hps')⟩
    refine expand_eq_binary_iff.2 ⟨rfl, n, _, _, pickBody_recorded hpick qs, hleft _, ?_⟩
    -- The right half is expanded when the own pick and those of the left half are on record.
    have hpicks : qs ++ [p] ++ ps ++ ps' = qs ++ p :: (ps ++ ps') := by simp
    exact hpicks ▸ hright (qs ++ [p] ++ ps)

/-- The picks that are made for a derivation: one for each of its nodes, in preorder. -/
structure PicksOf (ys : ShortestYields rules) (maxDepth : Nat) (d : DerivationTree) (s : σ)
    (ps : List (Pick σ)) (s' : σ) : Prop where
  chain : Pick.Chain s ps s'
  decides : List.Forall₂ (Decides ys maxDepth) (d.preorder 0) ps

lemma PicksOf.made {d : DerivationTree} {ps : List (Pick σ)} (h : PicksOf ys maxDepth d s ps s') :
    ∀ p ∈ ps, p.Made := by
  intro p hp
  obtain ⟨i, hi, rfl⟩ := List.mem_iff_getElem.1 hp
  have hnode : i < (d.preorder 0).length := h.decides.length_eq ▸ hi
  exact (h.decides.get hnode hi).made

/-- **A random word of `n` letters takes `2 * n - 1` picks**: those for its derivation. -/
theorem picks_of_word (h : wordFromStart rules start maxDepth s = .ok w s') :
    ∃ ps ys d, wordFromStart rules start maxDepth (⟨s, []⟩ : Recorded σ) = .ok w ⟨s', ps⟩ ∧
      ps.length = 2 * w.length - 1 ∧ ShortestYields.compute? rules = some ys ∧
      start = some d.root ∧ d.Follows rules ∧ d.word = w ∧ PicksOf ys maxDepth d s ps s' := by
  cases start with
  | none => exact absurd h (by simp [wordFromStart])
  | some a =>
    obtain ⟨ys, d, hys, hd, rfl⟩ := word_eq_ok_iff.1 h
    obtain ⟨rfl, hfollows⟩ := follows_of_expand hd
    obtain ⟨ps, hrecord, hchain, hdecides⟩ := record_of_expand hd
    have hcount : ps.length = 2 * d.word.length - 1 := by
      rw [← hdecides.length_eq, d.length_preorder, ← d.nodeCount_add_one, Nat.add_sub_cancel]
    exact ⟨ps, ys, d, word_eq_ok_iff.2 ⟨ys, d, hys, hrecord [], rfl⟩, hcount, hys, rfl, hfollows,
      rfl, hchain, hdecides⟩

/-- **A random word takes a draw for each of its picks and for each rejection, and no others.**  The
picks are those of a derivation of the word, in preorder, and for a word of `n` letters there are
`2 * n - 1` of them.  Each one is made from a list that is not empty, and takes the draws that are
rejected and the one that is accepted; so what is drawn last is accepted.  There are exactly
`2 * n - 1` draws exactly if none of the picks of the run rejects a draw. -/
theorem draws_of_random_word {s s' : Source}
    (h : wordFromStart rules start maxDepth s = .ok w s') :
    (∃ ps ys d, wordFromStart rules start maxDepth (⟨s, []⟩ : Recorded Source) = .ok w ⟨s', ps⟩ ∧
      ps.length = 2 * w.length - 1 ∧ ShortestYields.compute? rules = some ys ∧
      start = some d.root ∧ d.Follows rules ∧ d.word = w ∧ PicksOf ys maxDepth d s ps s' ∧
      Pick.Account s ps s') ∧
    ∀ ps, wordFromStart rules start maxDepth (⟨s, []⟩ : Recorded Source) = .ok w ⟨s', ps⟩ →
      (ps.flatMap Pick.rejected = [] ↔ s'.position = s.position + (2 * w.length - 1)) := by
  obtain ⟨ps, ys, d, hrecord, hcount, hys, hstart, hfollows, hword, hpicks⟩ := picks_of_word h
  have haccount := hpicks.chain.account hpicks.made
  refine ⟨⟨ps, ys, d, hrecord, hcount, hys, hstart, hfollows, hword, hpicks, haccount⟩,
    fun ps' hrecord' => ?_⟩
  -- A run makes the same picks however often it is recorded.
  have hsame : ps = ps' := by
    have hruns := hrecord.symm.trans hrecord'
    exact (Recorded.mk.inj (EStateM.Result.ok.inj hruns).2).2
  rw [← hsame, haccount.position_eq, hcount, ← List.length_eq_zero_iff]
  omega

/-- From zeros alone, a word of brackets is made without a rejection. -/
theorem draws_of_brackets_from_zeros :
    ∃ w s', wordFromStart brackets.rules.toList brackets.start 3 (Source.scripted []) = .ok w s' ∧
      s'.position = 2 * w.length - 1 ∧
      ∃ ps, wordFromStart brackets.rules.toList brackets.start 3
        (⟨Source.scripted [], []⟩ : Recorded Source) = .ok w ⟨s', ps⟩ ∧
          ps.length = 2 * w.length - 1 ∧ ps.flatMap Pick.rejected = [] := by
  have hmem : brackets.balanced ∈ brackets.heads := by decide
  obtain ⟨w, s', hw⟩ := reachable_brackets.wellFormed.exists_word_of_mem_heads (fun r => Iff.rfl)
    compute?_brackets_ne_none 3 Source.tireless_scripted_nil hmem
  have hw' : wordFromStart brackets.rules.toList brackets.start 3 (Source.scripted []) =
      .ok w s' := by
    rw [start_brackets]
    exact hw
  obtain ⟨⟨ps, _, _, hrecord, hcount, -, -, -, -, hpicks, -⟩, hposition⟩ :=
    draws_of_random_word hw'
  have hnone := hpicks.chain.rejected_eq_nil hpicks.made Source.accepts_scripted_nil
  have hzeros : s'.position = 0 + (2 * w.length - 1) := (hposition ps hrecord).1 hnone
  exact ⟨w, s', hw', hzeros.trans (Nat.zero_add _), ps, hrecord, hcount, hnone⟩

end Generation

end ChomskyGrammar
