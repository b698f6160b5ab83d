/-
# When a length gets too large

Sweeps add up lengths that are known so far, and on the way these may be far above the least ones.
So whether a sum exceeds the limit depends on the order in which the rules are visited.

* A rule that is too long spoils the computation in every order
  (`compute?_eq_none_of_hasLongRule`).
* Without such a rule, the computation succeeds in some order, but there may be others in which a
  sum gets too large before its summands are least (`Premature`).  The rules of `ladder` are an
  example.
* With few heads no length gets too large in any order.

Once the yields are computed, no sum of them that is still to be made gets too large
(`length_le_lengthLimit_of_mem_candidates`).
-/
import ChomskyGrammar.Proofs.Generation.Batch
import ChomskyGrammar.Proofs.Generation.ShortestFirst
import ChomskyGrammar.Proofs.Grammar.RuleOrder

namespace ChomskyGrammar

/-- Whether at some visit the known lengths of the halves of a rule are too large together although
their least lengths are not. -/
def Premature (rules : List Rule) : Prop :=
  ∃ y a b c k m n, Yields.Visits rules y ⟨a, .binary b c⟩ ∧
    y.bodyLength? (.binary b c) = some k ∧ lengthLimit < k ∧
    IsLeast (wordLengths rules b) m ∧ IsLeast (wordLengths rules c) n ∧ m + n ≤ lengthLimit

/-! ### When the computation is spoilt -/

section Spoilt

variable {rules rules' : List Rule} {a : Nonterminal} {n : Nat}

lemma hasLongRule_congr (h : ∀ r, r ∈ rules ↔ r ∈ rules') :
    HasLongRule rules ↔ HasLongRule rules' := by
  simp only [HasLongRule, wordLengths_congr h, h]

/-- Once the yields are computed, every rule has been visited in the last sweep, so no body is
known to be too long. -/
lemma ShortestYields.bodyLength_le_of_compute? {ys : ShortestYields rules}
    (hys : ShortestYields.compute? rules = some ys) {r : Rule} (hr : r ∈ rules)
    (hn : ys.yields.bodyLength? r.body = some n) : n ≤ lengthLimit := by
  have hsettle : Yields.settle rules .empty = some ys.yields := by
    rw [← ShortestYields.map_yields_compute?, hys]
    rfl
  obtain ⟨-, -, hself⟩ := Yields.settle_eq_some (fun _ _ h => absurd h (by simp))
    (fun _ _ h => absurd h (by simp)) hsettle
  by_contra hlarge
  have hnone : ys.yields.relax r = none :=
    Yields.relax_eq_none_iff.2 ⟨n, hn, Nat.lt_of_not_le hlarge⟩
  exact absurd (hnone.symm.trans (hself r hr)) (by simp)

/-- A rule that is too long spoils the computation, as in the end all known lengths are least. -/
theorem compute?_eq_none_of_hasLongRule (h : HasLongRule rules) :
    ShortestYields.compute? rules = none := by
  obtain ⟨a, b, c, m, n, hr, hm, hn, hlarge⟩ := h
  by_contra hne
  obtain ⟨ys, hys⟩ := Option.ne_none_iff_exists'.1 hne
  have hbody : ys.yields.bodyLength? (.binary b c) = some (m + n) :=
    Yields.bodyLength?_binary.2 ⟨m, n, ys.get?_eq_some_iff.2 hm, ys.get?_eq_some_iff.2 hn, rfl⟩
  exact absurd (ShortestYields.bodyLength_le_of_compute? hys hr hbody) (Nat.not_le.2 hlarge)

/-- **The computation is spoilt by a rule that is too long, or by a sum that gets too large
prematurely, and by nothing else.** -/
theorem compute?_eq_none_iff_long_or_premature :
    ShortestYields.compute? rules = none ↔ HasLongRule rules ∨ Premature rules := by
  constructor
  · intro hnone
    have hbounded : ¬Yields.Bounded rules := fun h =>
      ShortestYields.bounded_iff_compute?_ne_none.1 h hnone
    simp only [Yields.Bounded, not_forall, Nat.not_le] at hbounded
    obtain ⟨y, ⟨a, body⟩, k, hvisits, hk, hlarge⟩ := hbounded
    cases body with
    | unit t =>
      obtain rfl : 1 = k := Option.some.inj hk
      exact absurd hlarge (by decide)
    | binary b c =>
      obtain ⟨p, q, hp, hq, -⟩ := Yields.bodyLength?_binary.1 hk
      obtain ⟨u, hu, -⟩ := hvisits.attained b p hp
      obtain ⟨v, hv, -⟩ := hvisits.attained c q hq
      have hb := isLeast_leastLength hu
      have hc := isLeast_leastLength hv
      obtain ⟨_, _, before, later, -, hrules, -⟩ := id hvisits
      have hr : (⟨a, .binary b c⟩ : Rule) ∈ rules := by simp [hrules]
      rcases Nat.lt_or_ge lengthLimit (leastLength rules b + leastLength rules c) with hlt | hle
      · exact .inl ⟨a, b, c, _, _, hr, hb, hc, hlt⟩
      · exact .inr ⟨y, a, b, c, k, _, _, hvisits, hk, hlarge, hb, hc, hle⟩
  · rintro (hlong | ⟨y, a, b, c, k, m, n, hvisits, hk, hlarge, -⟩)
    · exact compute?_eq_none_of_hasLongRule hlong
    · by_contra hne
      have hbounded := ShortestYields.bounded_iff_compute?_ne_none.2 hne
      exact absurd (hbounded y _ k hvisits hk) (Nat.not_le.2 hlarge)

end Spoilt

namespace Generation

variable {σ : Type} [RandomSource σ] {rules : List Rule} {ys : ShortestYields rules}
  {maxDepth depth : Nat} {a : Nonterminal} {s s' : σ}

/-- The lengths of candidates are sums that need no check: once the yields are computed, none of
them is too large. -/
theorem length_le_lengthLimit_of_mem_candidates (hys : ShortestYields.compute? rules = some ys)
    {c : Candidate} (hc : c ∈ candidates rules ys.yields a) : c.length ≤ lengthLimit := by
  obtain ⟨hr, hlength⟩ := mem_candidates.1 hc
  exact ShortestYields.bodyLength_le_of_compute? hys hr hlength

/-- Once the yields are known, nothing gets too large any more. -/
lemma ne_overflow_of_expand {e : GenerationError}
    (h : expand ys maxDepth depth a s = .error e s') : e ≠ .overflow := by
  fun_induction expand ys maxDepth depth a s with
  | case1 depth a s e₁ s₁ hpick =>
    obtain ⟨rfl, -⟩ := EStateM.Result.error.inj h
    rcases pickBody_eq_error_cases hpick with ⟨rfl, -⟩ | rfl <;> simp
  | case2 => exact absurd h (by simp)
  | case3 depth a s n b c s₁ hpick e₁ s₂ hleft ihleft =>
    obtain ⟨rfl, rfl⟩ := EStateM.Result.error.inj h
    exact ihleft hleft
  | case4 depth a s n b c s₁ hpick left s₂ hleft e₁ s₃ hright ihleft ihright =>
    obtain ⟨rfl, rfl⟩ := EStateM.Result.error.inj h
    exact ihright hright
  | case5 => exact absurd h (by simp)

/-- The making of a word fails for a length exactly if the yields cannot be computed, and then
nothing is picked. -/
lemma word_eq_overflow_iff :
    word rules maxDepth a s = .error .overflow s' ↔
      ShortestYields.compute? rules = none ∧ s' = s := by
  rw [word, tree]
  cases ShortestYields.compute? rules with
  | none => simp [eq_comm]
  | some ys =>
    simp only [reduceCtorEq, false_and, iff_false]
    intro h
    split at h
    · rename_i e s₁ hexpand
      obtain ⟨rfl, -⟩ := EStateM.Result.error.inj h
      exact ne_overflow_of_expand hexpand rfl
    · exact absurd h (by simp)

lemma wordFromStart_eq_overflow_iff {start : Option Nonterminal} :
    wordFromStart rules start maxDepth s = .error .overflow s' ↔
      start ≠ none ∧ ShortestYields.compute? rules = none ∧ s' = s := by
  cases start with
  | none => simp [wordFromStart]
  | some a => simpa [wordFromStart] using word_eq_overflow_iff

end Generation

namespace Grammar

open Generation (word wordFromStart word_eq_overflow_iff wordFromStart_eq_overflow_iff)
open ShortestYields (compute?)

/-- **When a length gets too large.**  Let the rules of a reachable grammar be listed in any order.
The yields cannot be computed exactly if some rule is too long, or if a sum of lengths that are not
yet least gets too large; and the making of a word fails for a length exactly if they cannot be
computed.  A rule that is too long spoils every order, and without one there is an order, head by
head, in which the yields are computed.  With fewer than 64 heads they always are. -/
theorem lengths_get_too_large_iff {g : Grammar} (hg : g.Reachable) :
    (∀ rules : List Rule, (∀ r, r ∈ rules ↔ r ∈ g.rules) →
      (compute? rules = none ↔ HasLongRule g.rules.toList ∨ Premature rules) ∧
      (g.heads.size < 64 → compute? rules ≠ none) ∧
      ∀ (σ : Type) [RandomSource σ] (maxDepth : Nat) (x x' : σ),
        (∀ a, word rules maxDepth a x = .error .overflow x' ↔ compute? rules = none ∧ x' = x) ∧
        (wordFromStart rules g.start maxDepth x = .error .overflow x' ↔
          g.start ≠ none ∧ compute? rules = none ∧ x' = x)) ∧
    (HasLongRule g.rules.toList ↔ ∀ l : g.Listing, compute? l.rules = none) := by
  refine ⟨fun rules hrules => ⟨?_, fun hfew => ?_, fun σ _ maxDepth x x' => ?_⟩, fun h l => ?_,
    fun h => ?_⟩
  · rw [compute?_eq_none_iff_long_or_premature, hasLongRule_congr hrules]
  · refine ShortestYields.bounded_iff_compute?_ne_none.1
      (Yields.bounded_of_heads (s := g.heads.toList.toFinset) (fun r hr => ?_) ?_)
    · exact List.mem_toFinset.2 (mem_heads.2 ⟨r.body, (hrules r).1 hr⟩)
    · exact (List.toFinset_card_le _).trans_lt hfew
  · exact ⟨fun a => word_eq_overflow_iff, wordFromStart_eq_overflow_iff⟩
  · exact compute?_eq_none_of_hasLongRule ((hasLongRule_congr fun _ => l.mem_rules).2 h)
  · by_contra hlong
    obtain ⟨l, hl⟩ := hg.wellFormed.exists_listing hlong
    exact hl (h l)

/-! ### Rules that are spoilt by their order -/

/-- Uppercase letters stand in a row from this one on. -/
def firstRung : Nat := 0x13A0

lemma isUppercase_rung : ∀ i : Fin 66, isUppercase (Char.ofNat (firstRung + i)) = true := by
  decide +kernel

/-- One of 66 nonterminals. -/
def rung (i : Fin 66) : Nonterminal := ⟨Char.ofNat (firstRung + i), isUppercase_rung i⟩

/-- Each nonterminal up to the one with number 64 has a pair of the one before as a body, so that
words get twice as long with each of them.  But number 63 has a pair of number 65, too, and so it
has a word of two letters. -/
def ladderRules : List Rule :=
  ⟨rung 0, .unit ⟨'w', Eq.refl true⟩⟩ ::
    (List.finRange 63).map (fun i =>
      ⟨rung ⟨i + 1, by omega⟩, .binary (rung ⟨i, by omega⟩) (rung ⟨i, by omega⟩)⟩) ++
    [⟨rung 63, .binary (rung 65) (rung 65)⟩, ⟨rung 64, .binary (rung 63) (rung 63)⟩,
      ⟨rung 65, .unit ⟨'w', Eq.refl true⟩⟩]

lemma ascending_ladderRules :
    ladderRules.Pairwise fun r q => Ranked.rank r < Ranked.rank q := by
  decide +kernel

/-- The grammar with these rules. -/
def ladder : Grammar where
  nonterminals := .ofList ((List.finRange 66).map rung)
  terminals := .ofList [⟨'w', Eq.refl true⟩]
  start := some (rung 0)
  rules := ⟨ladderRules, ascending_ladderRules⟩

/-- A rule makes a nonterminal a letter or a pair of one and the same nonterminal. -/
lemma mem_ladderRules_cases {r : Rule} (hr : r ∈ ladderRules) :
    (∃ i, r = ⟨rung i, .unit ⟨'w', Eq.refl true⟩⟩) ∨
      ∃ i j, r = ⟨rung i, .binary (rung j) (rung j)⟩ := by
  simp only [ladderRules, List.cons_append, List.mem_cons, List.mem_append, List.mem_map,
    List.mem_finRange, true_and, List.not_mem_nil, or_false] at hr
  rcases hr with rfl | ⟨i, rfl⟩ | rfl | rfl | rfl
  · exact .inl ⟨0, rfl⟩
  · exact .inr ⟨_, _, rfl⟩
  · exact .inr ⟨63, 65, rfl⟩
  · exact .inr ⟨64, 63, rfl⟩
  · exact .inl ⟨65, rfl⟩

/-- Every nonterminal has a word that is short enough to be doubled. -/
lemma exists_short_word_of_rung (i : Fin 66) :
    ∃ w, Derives ladderRules (rung i) w ∧ w.length ≤ 2 ^ 62 := by
  have hdouble : ∀ {a b n}, (⟨a, .binary b b⟩ : Rule) ∈ ladderRules →
      (∃ w, Derives ladderRules b w ∧ w.length = n) →
      ∃ w, Derives ladderRules a w ∧ w.length = n + n := by
    rintro a b n hr ⟨w, hw, rfl⟩
    exact ⟨w ++ w, derives_append hr hw hw, List.length_append⟩
  have hlow : ∀ k (hk : k < 63),
      ∃ w, Derives ladderRules (rung ⟨k, by omega⟩) w ∧ w.length = 2 ^ k := by
    intro k hk
    induction k with
    | zero => exact ⟨_, derives_unit List.mem_cons_self, rfl⟩
    | succ k ih =>
      obtain ⟨w, hw, hlength⟩ := hdouble (List.mem_cons_of_mem _ (List.mem_append_left _
        (List.mem_map.2 ⟨⟨k, by omega⟩, List.mem_finRange _, rfl⟩))) (ih (by omega))
      exact ⟨w, hw, by rw [hlength, Nat.pow_succ, Nat.mul_two]⟩
  have hletter : ∃ w, Derives ladderRules (rung 65) w ∧ w.length = 1 :=
    ⟨_, derives_unit (t := ⟨'w', Eq.refl true⟩) (by simp [ladderRules]), rfl⟩
  have hpair := hdouble (a := rung 63) (by simp [ladderRules]) hletter
  have hpairs := hdouble (a := rung 64) (by simp [ladderRules]) hpair
  rcases Nat.lt_or_ge i 63 with h | h
  · obtain ⟨w, hw, hlength⟩ := hlow i h
    exact ⟨w, hw, hlength ▸ Nat.pow_le_pow_right (by decide) (Nat.le_of_lt_succ h)⟩
  · obtain rfl | rfl | rfl : i = 63 ∨ i = 64 ∨ i = 65 := by omega
    · exact hpair.imp fun w hw => ⟨hw.1, hw.2.trans_le (by decide)⟩
    · exact hpairs.imp fun w hw => ⟨hw.1, hw.2.trans_le (by decide)⟩
    · exact hletter.imp fun w hw => ⟨hw.1, hw.2.trans_le (by decide)⟩

lemma rung_mem_heads_ladder (i : Fin 66) : rung i ∈ ladder.heads := by
  obtain ⟨w, hw, -⟩ := exists_short_word_of_rung i
  exact mem_heads.2 hw.exists_rule

lemma reachable_ladder : ladder.Reachable := by
  have hrung : ∀ i, rung i ∈ ladder.nonterminals := fun i =>
    SortedSet.mem_ofList.2 (List.mem_map.2 ⟨i, List.mem_finRange i, rfl⟩)
  have hhead : ∀ a ∈ ladder.heads, ∃ i, a = rung i := by
    intro a ha
    obtain ⟨b, hb⟩ := mem_heads.1 ha
    rcases mem_ladderRules_cases hb with ⟨i, heq⟩ | ⟨i, j, heq⟩
    · exact ⟨i, (Rule.mk.inj heq).1⟩
    · exact ⟨i, (Rule.mk.inj heq).1⟩
  refine WellFormed.reachable ⟨?_, ?_, ?_, ?_, ?_⟩
  · rintro a ⟨⟩
    exact hrung 0
  · intro a ha
    obtain ⟨i, rfl⟩ := hhead a ha
    exact hrung i
  · intro a t h
    rcases mem_ladderRules_cases h with ⟨i, heq⟩ | ⟨i, j, heq⟩
    · obtain rfl := Body.unit.inj (Rule.mk.inj heq).2
      exact SortedSet.mem_ofList.2 List.mem_cons_self
    · exact absurd (Rule.mk.inj heq).2 (by simp)
  · intro a b c h
    rcases mem_ladderRules_cases h with ⟨i, heq⟩ | ⟨i, j, heq⟩
    · exact absurd (Rule.mk.inj heq).2 (by simp)
    · obtain ⟨rfl, rfl⟩ := Body.binary.inj (Rule.mk.inj heq).2
      exact ⟨rung_mem_heads_ladder j, rung_mem_heads_ladder j⟩
  · intro a ha
    obtain ⟨i, rfl⟩ := hhead a ha
    obtain ⟨w, hw, -⟩ := exists_short_word_of_rung i
    exact ⟨w, hw⟩

lemma not_hasLongRule_ladder : ¬HasLongRule ladder.rules.toList := by
  rintro ⟨a, b, c, m, n, hr, hm, hn, hlarge⟩
  rcases mem_ladderRules_cases hr with ⟨i, heq⟩ | ⟨i, j, heq⟩
  · exact absurd (Rule.mk.inj heq).2 (by simp)
  · obtain ⟨rfl, rfl⟩ := Body.binary.inj (Rule.mk.inj heq).2
    obtain ⟨w, hw, hlength⟩ := exists_short_word_of_rung j
    have hsum : m + n ≤ 2 ^ 62 + 2 ^ 62 :=
      Nat.add_le_add ((hm.2 ⟨w, hw, rfl⟩).trans hlength) ((hn.2 ⟨w, hw, rfl⟩).trans hlength)
    exact absurd (hlarge.trans_le hsum) (by decide)

/-- If the rules are visited in ascending order, number 63 is still known for the double of a long
word when number 64 is visited, and no word can be made.  Yet no rule is too long, and in another
order all yields are computed. -/
theorem ladder_is_spoilt_by_its_order :
    ladder.Reachable ∧ ¬HasLongRule ladder.rules.toList ∧ Premature ladder.rules.toList ∧
      wordFromStart ladder.rules.toList ladder.start 0 (Source.scripted []) =
        .error .overflow (Source.scripted []) ∧
      ∃ l : ladder.Listing, compute? l.rules ≠ none := by
  have hnone : compute? ladder.rules.toList = none := by
    rw [ShortestYields.compute?_eq_none_iff]
    decide +kernel
  obtain ⟨hlisted, hlong⟩ := lengths_get_too_large_iff reachable_ladder
  obtain ⟨hspoilt, -, hword⟩ := hlisted ladder.rules.toList fun _ => Iff.rfl
  refine ⟨reachable_ladder, not_hasLongRule_ladder, ?_, ?_, ?_⟩
  · exact (hspoilt.1 hnone).resolve_left not_hasLongRule_ladder
  · exact (hword Source 0 _ _).2.2 ⟨by simp [ladder], hnone, rfl⟩
  · exact not_forall.1 fun h => not_hasLongRule_ladder (hlong.2 h)

end Grammar

end ChomskyGrammar
