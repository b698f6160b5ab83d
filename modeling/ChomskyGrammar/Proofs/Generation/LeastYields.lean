/-
# Yields are least lengths

The yields that the sweeps reach are the least lengths of derived words, and a nonterminal that
derives no word has none.  This holds for any rules, also if some heads derive nothing, and for
any order in which the rules are visited, although the lengths that are known in between depend on
that order.  There are two parts to it:

* the sweeps come to an end if no length that is reckoned on the way exceeds the limit
  (`Bounded.exists_settle`);
* where they end, no derived word is shorter than the yield of its nonterminal, as no rule lowers
  a yield any more (`exists_yield_le_of_derives`), and some derived word is no longer, as a rule
  attains every yield (`exists_derives_of_yield`).
-/
import Mathlib.Order.Bounds.Defs
import ChomskyGrammar.Generation.ShortestYields
import ChomskyGrammar.Proofs.Derivation.Language

namespace ChomskyGrammar

/-- The lengths of the words that a nonterminal derives. -/
def wordLengths (rules : List Rule) (a : Nonterminal) : Set Nat :=
  {n | ∃ w, Derives rules a w ∧ w.length = n}

lemma wordLengths_congr {rules rules' : List Rule} (h : ∀ r, r ∈ rules ↔ r ∈ rules')
    (a : Nonterminal) : wordLengths rules a = wordLengths rules' a := by
  ext n
  exact exists_congr fun w => and_congr_left fun _ =>
    ⟨fun hw => hw.mono fun r => (h r).1, fun hw => hw.mono fun r => (h r).2⟩

namespace Yields

/-- What is known after some sweeps over all rules, starting from nothing; nothing if a length
got too large. -/
def afterSweeps (rules : List Rule) : Nat → Option Yields
  | 0 => some .empty
  | k + 1 => (afterSweeps rules k).bind fun y => y.sweep rules

/-- Whether a rule is visited while some lengths are known: some sweeps are over, and the one
under way has passed the rules before it. -/
def Visits (rules : List Rule) (y : Yields) (r : Rule) : Prop :=
  ∃ k y₀ before later, afterSweeps rules k = some y₀ ∧ rules = before ++ r :: later ∧
    y₀.sweep before = some y

/-- Whether no length that is reckoned at a visit exceeds the limit, however often the sweeps
are repeated. -/
def Bounded (rules : List Rule) : Prop :=
  ∀ y r n, Visits rules y r → y.bodyLength? r.body = some n → n ≤ lengthLimit

variable {rules rs : List Rule} {r : Rule} {y y' : Yields} {k : Nat}

/-! ### Where a length gets too large -/

/-- A rule fails only by the length of its body. -/
lemma relax_eq_none_iff :
    y.relax r = none ↔ ∃ n, y.bodyLength? r.body = some n ∧ lengthLimit < n := by
  rw [relax]
  cases y.bodyLength? r.body with
  | none => simp
  | some n =>
    by_cases hn : lengthLimit < n
    · simp [hn]
    · by_cases himproves : y.improves r.head n = true <;> simp [hn, himproves]

/-- A sweep fails at one of its rules, after it has passed the rules before. -/
lemma sweep_eq_none_iff :
    y.sweep rs = none ↔ ∃ before r later y', rs = before ++ r :: later ∧
      y.sweep before = some y' ∧ y'.relax r = none := by
  induction rs generalizing y with
  | nil => simp [sweep]
  | cons q qs ih =>
    rw [sweep]
    cases hq : y.relax q with
    | none =>
      exact iff_of_true rfl ⟨[], q, qs, y, rfl, rfl, hq⟩
    | some y₁ =>
      show y₁.sweep qs = none ↔ _
      rw [ih]
      constructor
      · rintro ⟨before, r, later, y', rfl, hbefore, hr⟩
        exact ⟨q :: before, r, later, y', rfl, by rw [sweep, hq]; exact hbefore, hr⟩
      · rintro ⟨before, r, later, y', hrs, hbefore, hr⟩
        cases before with
        | nil =>
          obtain ⟨rfl, rfl⟩ := List.cons.inj hrs
          obtain rfl := Option.some.inj hbefore
          exact absurd (hq.symm.trans hr) (by simp)
        | cons p before =>
          obtain ⟨rfl, rfl⟩ := List.cons.inj hrs
          rw [sweep, hq] at hbefore
          exact ⟨before, r, later, y', rfl, hbefore, hr⟩

/-! ### The sweeps come to an end -/

lemma Bounded.exists_sweep (h : Bounded rules) (hk : afterSweeps rules k = some y) :
    ∃ y', y.sweep rules = some y' := by
  refine Option.ne_none_iff_exists'.1 fun hnone => ?_
  obtain ⟨before, r, later, y', hrules, hbefore, hr⟩ := sweep_eq_none_iff.1 hnone
  obtain ⟨n, hn, hlarge⟩ := relax_eq_none_iff.1 hr
  exact Nat.not_lt.2 (h y' r n ⟨k, y, before, later, hk, hrules, hbefore⟩ hn) hlarge

/-- **Bounded sweeps come to an end**, after finitely many of them, with lengths that one more
sweep does not change. -/
theorem Bounded.exists_settle (h : Bounded rules) (hk : afterSweeps rules k = some y) :
    ∃ m y', afterSweeps rules m = some y' ∧ y'.sweep rules = some y' ∧
      settle rules y = some y' := by
  -- The induction is that of the loop, whose potential gets smaller with every change.
  fun_induction settle rules y generalizing k with
  | case1 y hsweep =>
    obtain ⟨y', hy'⟩ := h.exists_sweep hk
    exact absurd (hsweep.symm.trans hy') (by simp)
  | case2 y hsweep => exact ⟨k, y, hk, hsweep, rfl⟩
  | case3 y y₁ hsweep hne ih =>
    have hk₁ : afterSweeps rules (k + 1) = some y₁ := by
      rw [afterSweeps, hk]
      exact hsweep
    exact ih hk₁

lemma settle_of_sweep (h : y.sweep rules = some y') : settle rules y = settle rules y' := by
  rw [settle]
  split
  · rename_i hnone
    exact absurd (hnone.symm.trans h) (by simp)
  · rename_i y₁ hy₁
    obtain rfl := Option.some.inj (hy₁.symm.trans h)
    split
    · rename_i hself
      subst hself
      rw [settle]
      split <;> simp_all
    · rfl

/-- The loop can be entered after any number of sweeps. -/
lemma settle_afterSweeps (hk : afterSweeps rules k = some y) :
    settle rules .empty = settle rules y := by
  induction k generalizing y with
  | zero => rw [Option.some.inj hk]
  | succ k ih =>
    obtain ⟨y₀, hy₀, hsweep⟩ := Option.bind_eq_some_iff.1 hk
    rw [ih hy₀, settle_of_sweep hsweep]

lemma bounded_of_settle (h : settle rules .empty ≠ none) : Bounded rules := by
  rintro y r n ⟨k, y₀, before, later, hk, hrules, hbefore⟩ hn
  refine Nat.not_lt.1 fun hlarge => h ?_
  have hsweep : y₀.sweep rules = none :=
    sweep_eq_none_iff.2 ⟨before, r, later, y, hrules, hbefore, relax_eq_none_iff.2 ⟨n, hn, hlarge⟩⟩
  rw [settle_afterSweeps hk, settle]
  split <;> simp_all

end Yields

namespace ShortestYields

variable {rules rules' : List Rule} {a : Nonterminal} {n : Nat}

/-! ### What the sweeps reach -/

lemma map_yields_compute? : (compute? rules).map yields = Yields.settle rules .empty := by
  rw [compute?]
  split <;> simp_all

/-- Nothing gets too large exactly if the yields are found. -/
theorem bounded_iff_compute?_ne_none : Yields.Bounded rules ↔ compute? rules ≠ none := by
  constructor
  · intro h hnone
    obtain ⟨-, y, -, -, hsettle⟩ := h.exists_settle (k := 0) rfl
    exact absurd (hsettle.symm.trans (compute?_eq_none_iff.1 hnone)) (by simp)
  · intro h
    exact Yields.bounded_of_settle fun hnone => h (compute?_eq_none_iff.2 hnone)

/-- A derived word is no shorter than the yield of its nonterminal. -/
lemma exists_yield_le_of_derives (ys : ShortestYields rules) {w : List Terminal}
    (h : Derives rules a w) : ∃ m, ys.yields.get? a = some m ∧ m ≤ w.length := by
  induction h using Derives.induct with
  | unit a t hrule => exact ys.le_of_rule _ hrule 1 rfl
  | binary a b c u v hrule _ _ ihb ihc =>
    obtain ⟨m, hm, hmu⟩ := ihb
    obtain ⟨n, hn, hnv⟩ := ihc
    have hbody : ys.yields.bodyLength? (.binary b c) = some (m + n) :=
      Yields.bodyLength?_binary.2 ⟨m, n, hm, hn, rfl⟩
    obtain ⟨k, hk, hkle⟩ := ys.le_of_rule _ hrule (m + n) hbody
    refine ⟨k, hk, hkle.trans ?_⟩
    rw [List.length_append]
    exact Nat.add_le_add hmu hnv

/-- A nonterminal with a yield derives a word that is no longer. -/
lemma exists_derives_of_yield (ys : ShortestYields rules) (h : ys.yields.get? a = some n) :
    ∃ w, Derives rules a w ∧ w.length ≤ n := by
  -- The halves of a pair have positive yields, so both of them are smaller than their sum.
  induction n using Nat.strongRecOn generalizing a with
  | _ n ih =>
    obtain ⟨⟨a, body⟩, hrule, rfl, m, hm, hmn⟩ := ys.supported a n h
    cases body with
    | unit t =>
      obtain rfl : 1 = m := Option.some.inj hm
      exact ⟨[t], derives_unit hrule, hmn⟩
    | binary b c =>
      obtain ⟨p, q, hp, hq, rfl⟩ := Yields.bodyLength?_binary.1 hm
      have hppos := ys.positive b p hp
      have hqpos := ys.positive c q hq
      obtain ⟨u, hu, hup⟩ := ih p (by omega) hp
      obtain ⟨v, hv, hvq⟩ := ih q (by omega) hq
      refine ⟨u ++ v, derives_append hrule hu hv, ?_⟩
      rw [List.length_append]
      omega

/-- **A yield is the least length of a derived word.** -/
theorem get?_eq_some_iff (ys : ShortestYields rules) :
    ys.yields.get? a = some n ↔ IsLeast (wordLengths rules a) n := by
  have hleast : ∀ {n}, ys.yields.get? a = some n → IsLeast (wordLengths rules a) n := by
    intro n h
    have hlower : n ∈ lowerBounds (wordLengths rules a) := by
      rintro - ⟨w, hw, rfl⟩
      obtain ⟨m, hm, hmw⟩ := ys.exists_yield_le_of_derives hw
      obtain rfl := Option.some.inj (h.symm.trans hm)
      exact hmw
    obtain ⟨w, hw, hwn⟩ := ys.exists_derives_of_yield h
    exact ⟨⟨w, hw, Nat.le_antisymm hwn (hlower ⟨w, hw, rfl⟩)⟩, hlower⟩
  refine ⟨hleast, fun h => ?_⟩
  obtain ⟨w, hw, -⟩ := h.1
  obtain ⟨m, hm, -⟩ := ys.exists_yield_le_of_derives hw
  rw [hm, (hleast hm).unique h]

/-- A nonterminal that derives no word is one without a yield. -/
theorem get?_eq_none_iff (ys : ShortestYields rules) :
    ys.yields.get? a = none ↔ ∀ w, ¬Derives rules a w := by
  constructor
  · intro h w hw
    obtain ⟨m, hm, -⟩ := ys.exists_yield_le_of_derives hw
    exact absurd (h.symm.trans hm) (by simp)
  · intro h
    refine Option.eq_none_iff_forall_ne_some.2 fun n hn => ?_
    obtain ⟨w, hw, -⟩ := ys.exists_derives_of_yield hn
    exact h w hw

/-- Yields do not depend on the order in which the rules are visited. -/
theorem get?_eq_of_mem_iff (ys : ShortestYields rules) (ys' : ShortestYields rules')
    (h : ∀ r, r ∈ rules ↔ r ∈ rules') (a : Nonterminal) :
    ys.yields.get? a = ys'.yields.get? a := by
  refine Option.ext fun n => ?_
  rw [ys.get?_eq_some_iff, ys'.get?_eq_some_iff, wordLengths_congr h]

/-- **The sweeps find exactly the least lengths of derived words.**  Let no length that they reckon
exceed the limit.  Then some number of sweeps leads to lengths that one more does not change, and
these are the result: a nonterminal has a yield exactly if it derives a word, and it is the least
length of such a word.  The same rules in another order, also without a length that is too large,
have the same yields. -/
theorem sweeps_find_least_lengths (h : Yields.Bounded rules) :
    ∃ k y, Yields.afterSweeps rules k = some y ∧ y.sweep rules = some y ∧
      (∃ ys, compute? rules = some ys ∧ ys.yields = y) ∧
      (∀ a n, y.get? a = some n ↔ IsLeast (wordLengths rules a) n) ∧
      (∀ a, y.get? a = none ↔ ∀ w, ¬Derives rules a w) ∧
      ∀ rules', (∀ r, r ∈ rules' ↔ r ∈ rules) → Yields.Bounded rules' →
        ∃ ys', compute? rules' = some ys' ∧ ∀ a, ys'.yields.get? a = y.get? a := by
  obtain ⟨k, y, hk, hsweep, hsettle⟩ := h.exists_settle (k := 0) rfl
  obtain ⟨ys, hys, rfl⟩ := Option.map_eq_some_iff.1 (map_yields_compute?.trans hsettle)
  refine ⟨k, ys.yields, hk, hsweep, ⟨ys, hys, rfl⟩, fun a n => ys.get?_eq_some_iff,
    fun a => ys.get?_eq_none_iff, fun rules' hmem h' => ?_⟩
  obtain ⟨ys', hys'⟩ := Option.ne_none_iff_exists'.1 (bounded_iff_compute?_ne_none.1 h')
  exact ⟨ys', hys', ys'.get?_eq_of_mem_iff ys hmem⟩

/-- Rules for the word `www`, also by way of a longer word of `U`, and a rule that makes no word
of `X`: `U ::= VV | WV`, `V ::= WW`, `W ::= w` and `X ::= XX`. -/
def staircase : List Rule :=
  let u : Nonterminal := ⟨'U', by decide⟩
  let v : Nonterminal := ⟨'V', by decide⟩
  let w : Nonterminal := ⟨'W', by decide⟩
  let x : Nonterminal := ⟨'X', by decide⟩
  [⟨u, .binary v v⟩, ⟨u, .binary w v⟩, ⟨v, .binary w w⟩, ⟨w, .unit ⟨'w', by decide⟩⟩,
    ⟨x, .binary x x⟩]

/-- The shortest word of `U` has three letters, `X` has none, and the yields are the same if the
rules are visited from the last to the first. -/
theorem least_lengths_of_staircase :
    Yields.Bounded staircase ∧ Yields.Bounded staircase.reverse ∧
      IsLeast (wordLengths staircase ⟨'U', by decide⟩) 3 ∧
      (∀ w, ¬Derives staircase ⟨'X', by decide⟩ w) ∧
      ∃ ys', compute? staircase.reverse = some ys' ∧
        ys'.yields.get? ⟨'U', by decide⟩ = some 3 := by
  have hfound : (Yields.settle staircase .empty).map (fun y =>
      (y.get? ⟨'U', by decide⟩, y.get? ⟨'X', by decide⟩)) = some (some 3, none) := by
    decide +kernel
  have hbounded : Yields.Bounded staircase := Yields.bounded_of_settle (by decide +kernel)
  have hreverse : Yields.Bounded staircase.reverse := Yields.bounded_of_settle (by decide +kernel)
  obtain ⟨k, y, -, -, ⟨ys, hys, rfl⟩, hleast, hnone, horder⟩ := sweeps_find_least_lengths hbounded
  rw [← map_yields_compute?, hys] at hfound
  obtain ⟨hU, hX⟩ := Prod.mk.inj (Option.some.inj hfound)
  obtain ⟨ys', hys', hsame⟩ :=
    horder staircase.reverse (fun _ => List.mem_reverse) hreverse
  exact ⟨hbounded, hreverse, (hleast _ _).1 hU, (hnone _).1 hX, ys', hys', (hsame _).trans hU⟩

end ShortestYields

end ChomskyGrammar
