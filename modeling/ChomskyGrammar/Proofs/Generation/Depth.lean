/-
# How deep expansions go

An expansion calls itself for both halves of a pair, and above the greatest depth it may pick any
pair, so nothing gets smaller there but the distance to that depth.  From that depth on, a body of
the least length is picked.  Then the yield of the nonterminal is the sum of the yields of the
halves (`yield_eq_of_mem_eligible`), neither of which is zero; so each call has a smaller yield
than the one that makes it (`Calls.yield_lt`), and the word that a call makes is a shortest one
(`length_eq_yield_of_expand`).  This bounds the depth of all calls and the length of the word
(`expansion_is_shortest_past_depth`), whatever is picked.
-/
import Mathlib.Data.Finset.Max
import ChomskyGrammar.Proofs.Generation.Batch

namespace ChomskyGrammar

namespace Generation

open Relation (ReflTransGen)

variable {σ : Type} [RandomSource σ] {rules : List Rule} {ys : ShortestYields rules}
  {maxDepth depth n M : Nat} {a : Nonterminal} {s s' : σ}

/-! ### Calls -/

/-- A call of the expansion: a nonterminal at some depth, and the source to pick from. -/
structure Call (σ : Type) where
  depth : Nat
  head : Nonterminal
  source : σ

/-- The calls that a call makes.  If it picks a pair, it makes one for the left half, and if that
one ends well, it makes one for the right half. -/
inductive Calls (ys : ShortestYields rules) (maxDepth : Nat) : Call σ → Call σ → Prop
  | left {depth n a b c s s₁}
      (hpick : pickBody ys maxDepth depth a s = .ok ⟨n, .binary b c⟩ s₁) :
      Calls ys maxDepth ⟨depth, a, s⟩ ⟨depth + 1, b, s₁⟩
  | right {depth n a b c s s₁ d s₂}
      (hpick : pickBody ys maxDepth depth a s = .ok ⟨n, .binary b c⟩ s₁)
      (hleft : expand ys maxDepth (depth + 1) b s₁ = .ok d s₂) :
      Calls ys maxDepth ⟨depth, a, s⟩ ⟨depth + 1, c, s₂⟩

/-! ### What is picked -/

/-- The length of a body that is picked is known. -/
lemma bodyLength?_of_pickBody {c : Candidate} (h : pickBody ys maxDepth depth a s = .ok c s') :
    ys.yields.bodyLength? c.body = some c.length := by
  have hc : c ∈ candidates rules ys.yields a := mem_of_mem_eligible (mem_of_pickBody h)
  exact (mem_candidates.1 hc).2

/-- From the greatest depth on, the length of a body that may be picked is the yield of its
nonterminal. -/
lemma yield_eq_of_mem_eligible {c : Candidate} (hdepth : maxDepth ≤ depth)
    (h : c ∈ eligible maxDepth depth (candidates rules ys.yields a).toList) :
    ys.yields.get? a = some c.length := by
  have hc : c ∈ candidates rules ys.yields a := mem_of_mem_eligible h
  obtain ⟨hrule, hlength⟩ := mem_candidates.1 hc
  obtain ⟨m, hm, hle⟩ := length_le_of_mem_eligible ys hdepth h
  obtain ⟨k, hk, hkle⟩ := ys.le_of_rule _ hrule _ hlength
  obtain rfl := Option.some.inj (hm.symm.trans hk)
  rw [hm, Nat.le_antisymm hkle hle]

lemma yield_eq_of_pickBody {c : Candidate} (hdepth : maxDepth ≤ depth)
    (h : pickBody ys maxDepth depth a s = .ok c s') : ys.yields.get? a = some c.length :=
  yield_eq_of_mem_eligible hdepth (mem_of_pickBody h)

/-! ### The depth of calls -/

variable {p q : Call σ}

lemma Calls.depth_eq (h : Calls ys maxDepth p q) : q.depth = p.depth + 1 := by
  cases h <;> rfl

/-- What is called has a known yield. -/
lemma Calls.exists_yield (h : Calls ys maxDepth p q) : ∃ n, ys.yields.get? q.head = some n := by
  cases h with
  | left hpick => exact (exists_yields_of_pickBody hpick).1
  | right hpick => exact (exists_yields_of_pickBody hpick).2

/-- From the greatest depth on, what is called has a smaller yield. -/
lemma Calls.yield_lt (h : Calls ys maxDepth p q) (hdepth : maxDepth ≤ p.depth)
    (hn : ys.yields.get? q.head = some n) : ∃ m, ys.yields.get? p.head = some m ∧ n < m := by
  -- The yields of both halves are positive, and their sum is the yield of the caller.
  cases h with
  | left hpick =>
    obtain ⟨k, l, hk, hl, hsum⟩ := Yields.bodyLength?_binary.1 (bodyLength?_of_pickBody hpick)
    have hl₀ := ys.positive _ l hl
    obtain rfl := Option.some.inj (hk.symm.trans hn)
    exact ⟨_, yield_eq_of_pickBody hdepth hpick, by dsimp only at hsum ⊢; omega⟩
  | right hpick =>
    obtain ⟨k, l, hk, hl, hsum⟩ := Yields.bodyLength?_binary.1 (bodyLength?_of_pickBody hpick)
    have hk₀ := ys.positive _ k hk
    obtain rfl := Option.some.inj (hl.symm.trans hn)
    exact ⟨_, yield_eq_of_pickBody hdepth hpick, by dsimp only at hsum ⊢; omega⟩

/-- Let the depth of a call, but at least the greatest depth, and its yield be at most `N` together.
If the call is above the greatest depth, let the same hold there for all yields.  Then it holds for
the calls that the call leads to. -/
lemma depth_add_yield_le {N : Nat} (h : ReflTransGen (Calls ys maxDepth) p q)
    (hn : ys.yields.get? p.head = some n) (hle : max maxDepth p.depth + n ≤ N)
    (habove : p.depth < maxDepth → ∀ b m, ys.yields.get? b = some m → maxDepth + m ≤ N) :
    ∃ m, ys.yields.get? q.head = some m ∧ max maxDepth q.depth + m ≤ N := by
  induction h using ReflTransGen.head_induction_on generalizing n with
  | refl => exact ⟨n, hn, hle⟩
  | @head p p' hcall _ ih =>
    obtain ⟨m, hm⟩ := hcall.exists_yield
    have hdepth : p'.depth = p.depth + 1 := hcall.depth_eq
    refine ih hm ?_ fun hlt => habove (by omega)
    -- Either the depth is not yet at the greatest one, or the yield gets smaller.
    rcases Nat.lt_or_ge p.depth maxDepth with hlt | hge
    · have hmN := habove hlt _ m hm
      omega
    · obtain ⟨k, hk, hmk⟩ := hcall.yield_lt hge hm
      obtain rfl := Option.some.inj (hk.symm.trans hn)
      omega

/-! ### The length of words -/

/-- **From the greatest depth on, a shortest word is made.** -/
theorem length_eq_yield_of_expand {d : DerivationTree} (hdepth : maxDepth ≤ depth)
    (h : expand ys maxDepth depth a s = .ok d s') : ys.yields.get? a = some d.word.length := by
  induction d generalizing depth a s s' with
  | unit x t =>
    obtain ⟨-, n, hpick⟩ := expand_eq_unit_iff.1 h
    have hlength : some 1 = some n := bodyLength?_of_pickBody hpick
    exact (yield_eq_of_pickBody hdepth hpick).trans hlength.symm
  | binary x left right ihl ihr =>
    obtain ⟨-, n, s₁, s₂, hpick, hl, hr⟩ := expand_eq_binary_iff.1 h
    obtain ⟨k, m, hk, hm, hsum⟩ := Yields.bodyLength?_binary.1 (bodyLength?_of_pickBody hpick)
    have hleft := Option.some.inj ((ihl (Nat.le_succ_of_le hdepth) hl).symm.trans hk)
    have hright := Option.some.inj ((ihr (Nat.le_succ_of_le hdepth) hr).symm.trans hm)
    rw [yield_eq_of_pickBody hdepth hpick, DerivationTree.word, List.length_append, hleft, hright]
    exact congrArg some hsum.symm

/-- Above the greatest depth, a word is at most doubled with each level. -/
theorem length_le_of_expand {d : DerivationTree} (hM : ∀ b m, ys.yields.get? b = some m → m ≤ M)
    (h : expand ys maxDepth depth a s = .ok d s') :
    d.word.length ≤ 2 ^ (maxDepth - depth) * M := by
  induction d generalizing depth a s s' with
  | unit x t =>
    obtain ⟨-, n, hpick⟩ := expand_eq_unit_iff.1 h
    obtain ⟨m, hm, -⟩ := ys.le_of_rule _ (rule_mem_of_pickBody hpick) _
      (bodyLength?_of_pickBody hpick)
    have hpos : 0 < M := (ys.positive _ m hm).trans_le (hM _ m hm)
    exact Nat.mul_pos (Nat.two_pow_pos _) hpos
  | binary x left right ihl ihr =>
    rcases Nat.lt_or_ge depth maxDepth with hlt | hge
    · obtain ⟨-, n, s₁, s₂, hpick, hl, hr⟩ := expand_eq_binary_iff.1 h
      have hpow : maxDepth - depth = maxDepth - (depth + 1) + 1 := by omega
      calc (left.word ++ right.word).length
          = left.word.length + right.word.length := List.length_append
        _ ≤ 2 ^ (maxDepth - (depth + 1)) * M + 2 ^ (maxDepth - (depth + 1)) * M :=
          Nat.add_le_add (ihl hl) (ihr hr)
        _ = 2 ^ (maxDepth - depth) * M := by
          rw [hpow, Nat.pow_succ, Nat.mul_right_comm, Nat.mul_two]
    · -- No level is left above the greatest depth.
      rw [Nat.sub_eq_zero_of_le hge, Nat.pow_zero, Nat.one_mul]
      exact hM _ _ (length_eq_yield_of_expand hge h)

end Generation

namespace Grammar

open Generation (Call Calls expand word depth_add_yield_le eq_stalled_of_expand exists_expand
  length_eq_yield_of_expand length_le_of_expand word_eq_ok_iff)
open RandomSource (Tireless)
open Relation (ReflTransGen)
open ShortestYields (compute?)

variable {σ : Type} [RandomSource σ] {g : Grammar} {rules : List Rule} {ys : ShortestYields rules}

/-- Every head has a yield. -/
lemma WellFormed.exists_yield (hg : g.WellFormed) (hrules : ∀ r, r ∈ rules ↔ r ∈ g.rules)
    (ys : ShortestYields rules) {a : Nonterminal} (ha : a ∈ g.heads) :
    ∃ n, ys.yields.get? a = some n := by
  obtain ⟨w, hw⟩ := hg.productive a ha
  obtain ⟨n, hn, -⟩ := ys.exists_yield_le_of_derives ((derives_listing_iff hrules).2 hw)
  exact ⟨n, hn⟩

/-- The yields are the least lengths of the words of the grammar. -/
lemma yield_eq_iff (hrules : ∀ r, r ∈ rules ↔ r ∈ g.rules) (ys : ShortestYields rules)
    {a : Nonterminal} {n : Nat} :
    ys.yields.get? a = some n ↔ IsLeast (wordLengths g.rules.toList a) n := by
  rw [ys.get?_eq_some_iff, wordLengths_congr hrules]

/-- There is a greatest one among the yields of the heads, and no yield is greater. -/
lemma WellFormed.exists_greatest_yield (hg : g.WellFormed)
    (hrules : ∀ r, r ∈ rules ↔ r ∈ g.rules) (ys : ShortestYields rules)
    (hheads : ∃ a, a ∈ g.heads) :
    ∃ M, IsGreatest {m | ∃ b ∈ g.heads, IsLeast (wordLengths g.rules.toList b) m} M ∧
      ∀ b m, ys.yields.get? b = some m → m ≤ M := by
  obtain ⟨a, ha⟩ := hheads
  obtain ⟨b, hb, hmax⟩ := Finset.exists_max_image g.heads.toList.toFinset
    (fun b => (ys.yields.get? b).getD 0) ⟨a, List.mem_toFinset.2 ha⟩
  have hb : b ∈ g.heads := List.mem_toFinset.1 hb
  obtain ⟨M, hM⟩ := hg.exists_yield hrules ys hb
  have hle : ∀ c ∈ g.heads, ∀ m, ys.yields.get? c = some m → m ≤ M := by
    intro c hc m hm
    have := hmax c (List.mem_toFinset.2 hc)
    simpa only [hm, hM, Option.getD_some] using this
  refine ⟨M, ⟨⟨b, hb, (yield_eq_iff hrules ys).1 hM⟩, ?_⟩, ?_⟩
  · rintro m ⟨c, hc, hm⟩
    exact hle c hc m ((yield_eq_iff hrules ys).2 hm)
  · intro c m hm
    obtain ⟨⟨w, hw, -⟩, -⟩ := (yield_eq_iff hrules ys).1 hm
    exact hle c (mem_heads.2 hw.exists_rule) m hm

/-- **Expansions end, and make shortest words past the greatest depth.**  Let the rules of a
reachable grammar be listed in any order without a yield that is too large.  Then, whatever is
picked from a source:

* the expansion of a nonterminal with rules ends at any depth.  It fails only by a pick without end,
  and not at all if the source is tireless;
* a call at the greatest depth or beyond makes a shortest word of its nonterminal, of `m` letters,
  and the calls that it leads to are at most `m - 1` levels deeper;
* if `M` is the greatest one of the lengths of shortest words of nonterminals with rules, the calls
  of a random word have a depth of at most `maxDepth + M - 1`, and the word has at most
  `2 ^ maxDepth * M` letters.  If the greatest depth is zero, it is a shortest word. -/
theorem expansion_is_shortest_past_depth (hg : g.Reachable)
    (hrules : ∀ r, r ∈ rules ↔ r ∈ g.rules) (hys : compute? rules = some ys) (maxDepth : Nat) :
    (∀ a ∈ g.heads, ∀ depth (x : σ),
      (Tireless x → ∃ d x', expand ys maxDepth depth a x = .ok d x') ∧
      ∀ e x', expand ys maxDepth depth a x = .error e x' → e = .stalled) ∧
    (∀ a ∈ g.heads, ∀ depth, maxDepth ≤ depth →
      ∃ m, IsLeast (wordLengths g.rules.toList a) m ∧ ∀ x : σ,
        (∀ d x', expand ys maxDepth depth a x = .ok d x' → d.word.length = m) ∧
        ∀ q, ReflTransGen (Calls ys maxDepth) ⟨depth, a, x⟩ q → q.depth ≤ depth + (m - 1)) ∧
    ∀ a ∈ g.heads,
      ∃ M, IsGreatest {m | ∃ b ∈ g.heads, IsLeast (wordLengths g.rules.toList b) m} M ∧ ∀ x : σ,
        (∀ q, ReflTransGen (Calls ys maxDepth) ⟨0, a, x⟩ q → q.depth ≤ maxDepth + M - 1) ∧
        ∀ w x', word rules maxDepth a x = .ok w x' →
          w.length ≤ 2 ^ maxDepth * M ∧
          (maxDepth = 0 → IsLeast (wordLengths g.rules.toList a) w.length) := by
  have hwf := hg.wellFormed
  refine ⟨fun a ha depth x => ?_, fun a ha depth hdepth => ?_, fun a ha => ?_⟩
  · obtain ⟨n, hn⟩ := hwf.exists_yield hrules ys ha
    refine ⟨fun hx => ?_, fun e x' => eq_stalled_of_expand hn⟩
    obtain ⟨d, x', hd, -⟩ := exists_expand maxDepth depth hx hn
    exact ⟨d, x', hd⟩
  · obtain ⟨m, hm⟩ := hwf.exists_yield hrules ys ha
    refine ⟨m, (yield_eq_iff hrules ys).1 hm, fun x => ⟨fun d x' hd => ?_, fun q hq => ?_⟩⟩
    · exact Option.some.inj ((length_eq_yield_of_expand hdepth hd).symm.trans hm)
    · obtain ⟨k, hk, hle⟩ := depth_add_yield_le (N := depth + m) hq hm (by simp [hdepth])
        fun hlt => absurd hlt (Nat.not_lt.2 hdepth)
      have hpos := ys.positive _ k hk
      omega
  · obtain ⟨M, hgreatest, hM⟩ := hwf.exists_greatest_yield hrules ys ⟨a, ha⟩
    obtain ⟨n, hn⟩ := hwf.exists_yield hrules ys ha
    have hnM := hM a n hn
    refine ⟨M, hgreatest, fun x => ⟨fun q hq => ?_, fun w x' hw => ?_⟩⟩
    · obtain ⟨k, hk, hle⟩ := depth_add_yield_le (N := maxDepth + M) hq hn
        (by simpa using hnM) fun _ b m hm => Nat.add_le_add_left (hM b m hm) maxDepth
      have hpos := ys.positive _ k hk
      omega
    · obtain ⟨ys', d, hys', hd, rfl⟩ := word_eq_ok_iff.1 hw
      obtain rfl := Option.some.inj (hys.symm.trans hys')
      refine ⟨length_le_of_expand hM hd, ?_⟩
      rintro rfl
      exact (yield_eq_iff hrules ys).1 (length_eq_yield_of_expand le_rfl hd)

/-- At depth zero, every random word of brackets is one of two letters, and a word of brackets that
is kept short from depth three on has at most 24 letters.  No call is deeper than five. -/
theorem expansion_of_brackets_is_shortest :
    brackets.Reachable ∧ brackets.balanced ∈ brackets.heads ∧
      ∃ ys, compute? brackets.rules.toList = some ys ∧
        (∃ d x', expand ys 0 0 brackets.balanced (Source.scripted []) = .ok d x') ∧
        (∀ (x x' : Source) w, word brackets.rules.toList 0 brackets.balanced x = .ok w x' →
          w.length = 2) ∧
        ∀ x : Source,
          (∀ q, ReflTransGen (Calls ys 3) ⟨0, brackets.balanced, x⟩ q → q.depth ≤ 5) ∧
          ∀ w x', word brackets.rules.toList 3 brackets.balanced x = .ok w x' → w.length ≤ 24 := by
  have hrules : ∀ r, r ∈ brackets.rules.toList ↔ r ∈ brackets.rules := fun r => Iff.rfl
  have hmem : brackets.balanced ∈ brackets.heads := by decide
  have hfound : (Yields.settle brackets.rules.toList .empty).map (fun y =>
      (y.get? brackets.balanced, decide (∀ b ∈ brackets.heads.toList, (y.get? b).getD 0 ≤ 3))) =
      some (some 2, true) := by
    decide +kernel
  obtain ⟨ys, hys⟩ := Option.ne_none_iff_exists'.1 compute?_brackets_ne_none
  rw [← ShortestYields.map_yields_compute?, hys] at hfound
  obtain ⟨htwo, hthree⟩ := Prod.mk.inj (Option.some.inj hfound)
  have htwo := (yield_eq_iff hrules ys).1 htwo
  obtain ⟨hends, -, hshort⟩ :=
    expansion_is_shortest_past_depth (σ := Source) reachable_brackets hrules hys 0
  obtain ⟨-, -, hlong⟩ :=
    expansion_is_shortest_past_depth (σ := Source) reachable_brackets hrules hys 3
  obtain ⟨_, -, hshort⟩ := hshort _ hmem
  obtain ⟨M, ⟨⟨b, hb, hM⟩, -⟩, hlong⟩ := hlong _ hmem
  have hM : M ≤ 3 := by
    have := of_decide_eq_true hthree b hb
    rwa [(yield_eq_iff hrules ys).2 hM] at this
  refine ⟨reachable_brackets, hmem, ys, hys,
    (hends _ hmem 0 _).1 Source.tireless_scripted_nil, fun x x' w hw => ?_, fun x => ⟨?_, ?_⟩⟩
  · exact (((hshort x).2 w x' hw).2 rfl).unique htwo
  · intro q hq
    have := (hlong x).1 q hq
    omega
  · intro w x' hw
    have := ((hlong x).2 w x' hw).1
    omega

end Grammar

end ChomskyGrammar
