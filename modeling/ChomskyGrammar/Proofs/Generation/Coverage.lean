/-
# What random derivations can be

Some candidates may not be picked at or beyond the greatest depth, and a list of candidates that
is cut off too early, or one that is too long for the draws, would leave derivations out.  None are
left out but those that have to be:

* there are fewer candidates than draws, because there are few letters (`length_candidates_lt`);
* a candidate may be picked exactly if the depth is above the greatest one, or if its length is the
  yield of its nonterminal (`mem_eligible_iff`), as candidates are sorted by length;
* so a derivation tree that follows the rules is made from some draws exactly if it is kept short
  (`exists_draws_iff`): from the greatest depth on, its nodes have bodies that give their
  nonterminals shortest words.
-/
import ChomskyGrammar.Proofs.Generation.Depth
import ChomskyGrammar.Proofs.Generation.ShortestFirst
import ChomskyGrammar.Proofs.Random.Script

namespace ChomskyGrammar

/-! ### The number of letters -/

/-- The characters that a table covers are among the code points from the first to the last one of
each of its ranges. -/
lemma exists_codePoints (table : List CodeRange) :
    ∃ codes : Finset Nat, (∀ c, inRanges table c = true → c.toNat ∈ codes) ∧
      codes.card ≤
        (table.flatMap fun r => List.range' r.first (r.last + 1 - r.first)).length := by
  refine ⟨(table.flatMap fun r => List.range' r.first (r.last + 1 - r.first)).toFinset, ?_,
    List.toFinset_card_le _⟩
  intro c h
  obtain ⟨r, hr, hc⟩ := inRanges_iff.1 h
  obtain ⟨hfirst, hlast, -⟩ := CodeRange.contains_iff.1 hc
  refine List.mem_toFinset.2 (List.mem_flatMap.2 ⟨r, hr, List.mem_range'_1.2 ⟨hfirst, ?_⟩⟩)
  omega

/-- The places of bodies in their order, by the code points of nonterminals and terminals. -/
def bodyRanks (uppers lowers : Finset Nat) : Finset Nat :=
  (uppers ×ˢ uppers).image (fun p => p.1 * codePointCount + p.2) ∪
    lowers.image fun t => codePointCount * codePointCount + t

lemma rank_mem_bodyRanks {uppers lowers : Finset Nat}
    (hupper : ∀ a : Nonterminal, a.char.toNat ∈ uppers)
    (hlower : ∀ t : Terminal, t.char.toNat ∈ lowers) (b : Body) :
    b.rank ∈ bodyRanks uppers lowers := by
  rw [bodyRanks, Finset.mem_union, Finset.mem_image, Finset.mem_image]
  cases b with
  | binary l r => exact .inl ⟨(_, _), Finset.mk_mem_product (hupper l) (hupper r), rfl⟩
  | unit t => exact .inr ⟨_, hlower t, rfl⟩

lemma card_bodyRanks_le (uppers lowers : Finset Nat) :
    (bodyRanks uppers lowers).card ≤ uppers.card * uppers.card + lowers.card := by
  refine (Finset.card_union_le _ _).trans (Nat.add_le_add ?_ Finset.card_image_le)
  exact Finset.card_image_le.trans (Nat.le_of_eq (Finset.card_product _ _))

/-- There are fewer bodies than draws. -/
lemma exists_bodyRanks :
    ∃ ranks : Finset Nat, (∀ b : Body, b.rank ∈ ranks) ∧ ranks.card < Source.drawCount := by
  obtain ⟨uppers, hupper, hle⟩ := exists_codePoints uppercaseRanges
  obtain ⟨lowers, hlower, hle'⟩ := exists_codePoints lowercaseRanges
  have huppers : uppers.card ≤ 2 ^ 15 := hle.trans (by decide +kernel)
  have hlowers : lowers.card ≤ 2 ^ 15 := hle'.trans (by decide +kernel)
  refine ⟨bodyRanks uppers lowers, rank_mem_bodyRanks (fun a => hupper _ a.uppercase)
    fun t => hlower _ t.lowercase, ?_⟩
  calc (bodyRanks uppers lowers).card
      ≤ uppers.card * uppers.card + lowers.card := card_bodyRanks_le _ _
    _ ≤ 2 ^ 15 * 2 ^ 15 + 2 ^ 15 := Nat.add_le_add (Nat.mul_le_mul huppers huppers) hlowers
    _ < Source.drawCount := by decide

/-! ### Trees that are kept short -/

lemma isLeastBody_congr {rules rules' : List Rule} (h : ∀ r, r ∈ rules ↔ r ∈ rules')
    (a : Nonterminal) (b : Body) : IsLeastBody rules a b ↔ IsLeastBody rules' a b := by
  cases b <;> simp only [IsLeastBody, leastLength, wordLengths_congr h]

namespace DerivationTree

/-- The number of levels of nonterminals. -/
def levels : DerivationTree → Nat
  | unit _ _ => 1
  | binary _ left right => max left.levels right.levels + 1

/-- Whether the nodes at the greatest depth and beyond have bodies that give their nonterminals
shortest words, if the root is at some depth. -/
def KeptShort (rules : List Rule) (maxDepth : Nat) : Nat → DerivationTree → Prop
  | depth, unit a t => maxDepth ≤ depth → IsLeastBody rules a (.unit t)
  | depth, binary a left right =>
    (maxDepth ≤ depth → IsLeastBody rules a (.binary left.root right.root)) ∧
      left.KeptShort rules maxDepth (depth + 1) ∧ right.KeptShort rules maxDepth (depth + 1)

variable {rules rules' : List Rule} {maxDepth depth : Nat} {d : DerivationTree}

lemma follows_congr (h : ∀ r, r ∈ rules ↔ r ∈ rules') : d.Follows rules ↔ d.Follows rules' := by
  induction d with
  | unit a t => exact h _
  | binary a left right ihl ihr => simp only [Follows, h, ihl, ihr]

lemma keptShort_congr (h : ∀ r, r ∈ rules ↔ r ∈ rules') :
    d.KeptShort rules maxDepth depth ↔ d.KeptShort rules' maxDepth depth := by
  induction d generalizing depth with
  | unit a t => simp only [KeptShort, isLeastBody_congr h]
  | binary a left right ihl ihr => simp only [KeptShort, isLeastBody_congr h, ihl, ihr]

/-- Trees without a node at the greatest depth are kept short. -/
lemma keptShort_of_levels_le (rules : List Rule) (h : depth + d.levels ≤ maxDepth) :
    d.KeptShort rules maxDepth depth := by
  induction d generalizing depth with
  | unit a t =>
    rw [levels] at h
    exact fun hge => absurd hge (by omega)
  | binary a left right ihl ihr =>
    rw [levels] at h
    exact ⟨fun hge => absurd hge (by omega), ihl (by omega), ihr (by omega)⟩

end DerivationTree

namespace Generation

variable {rules : List Rule} {ys : ShortestYields rules} {maxDepth depth n : Nat}
  {a : Nonterminal} {c : Candidate} {d : DerivationTree}

/-! ### What may be picked -/

/-- There are fewer candidates than draws. -/
lemma length_candidates_lt (rules : List Rule) (y : Yields) (a : Nonterminal) :
    (candidates rules y a).toList.length < Source.drawCount := by
  obtain ⟨ranks, hranks, hcard⟩ := exists_bodyRanks
  have hnodup : (candidates rules y a).toList.Nodup :=
    (candidates rules y a).ascending.imp fun hlt heq => absurd (heq ▸ hlt) (Nat.lt_irrefl _)
  -- The length of a candidate is that of its body.
  have hbodies : ((candidates rules y a).toList.map fun c => c.body.rank).Nodup := by
    refine hnodup.map_on fun c hc e he hrank => ?_
    have hbody : c.body = e.body := Body.rank_inj hrank
    have hlength := (mem_candidates.1 hc).2
    rw [hbody, (mem_candidates.1 he).2] at hlength
    obtain ⟨m, b⟩ := c
    obtain ⟨n, b'⟩ := e
    obtain rfl : b = b' := hbody
    obtain rfl : n = m := Option.some.inj hlength
    rfl
  calc (candidates rules y a).toList.length
      = ((candidates rules y a).toList.map fun c => c.body.rank).toFinset.card := by
        rw [List.toFinset_card_of_nodup hbodies, List.length_map]
    _ ≤ ranks.card := by
        refine Finset.card_le_card fun m hm => ?_
        obtain ⟨c, -, rfl⟩ := List.mem_map.1 (List.mem_toFinset.1 hm)
        exact hranks c.body
    _ < Source.drawCount := hcard

lemma length_eligible_le (maxDepth depth : Nat) (cs : List Candidate) :
    (eligible maxDepth depth cs).length ≤ cs.length := by
  cases cs with
  | nil => exact le_rfl
  | cons c cs =>
    rw [eligible]
    split
    · exact Nat.succ_le_succ (List.takeWhile_sublist _).length_le
    · exact le_rfl

/-- Those of the least value stand first in a sorted list. -/
lemma mem_takeWhile_of_sorted {α : Type} {f : α → Nat} {m : Nat} {l : List α} {x : α}
    (hsorted : l.Pairwise fun y z => f y ≤ f z) (hm : ∀ y ∈ l, m ≤ f y) (hx : x ∈ l)
    (hfx : f x = m) : x ∈ l.takeWhile fun y => decide (f y = m) := by
  induction l with
  | nil => exact hx
  | cons y l ih =>
    obtain ⟨hle, hsorted⟩ := List.pairwise_cons.1 hsorted
    obtain ⟨hy, hm⟩ := List.forall_mem_cons.1 hm
    rcases List.mem_cons.1 hx with rfl | hx
    · simp [hfx]
    · have hfy : f y = m := Nat.le_antisymm (hfx ▸ hle x hx) hy
      rw [List.takeWhile_cons, if_pos (decide_eq_true hfy)]
      exact List.mem_cons_of_mem y (ih hsorted hm hx)

/-- **What may be picked**: every candidate above the greatest depth, and from there on those whose
length is the yield of their nonterminal. -/
theorem mem_eligible_iff :
    c ∈ eligible maxDepth depth (candidates rules ys.yields a).toList ↔
      c ∈ candidates rules ys.yields a ∧
        (maxDepth ≤ depth → ys.yields.get? a = some c.length) := by
  refine ⟨fun h => ⟨mem_of_mem_eligible h, fun hdepth => yield_eq_of_mem_eligible hdepth h⟩, ?_⟩
  rintro ⟨hc, hshort⟩
  have hsorted : (candidates rules ys.yields a).toList.Pairwise fun c e => c.length ≤ e.length :=
    (candidates rules ys.yields a).ascending.imp Candidate.length_le_of_rank_lt
  -- No candidate is shorter than the yield.
  have hleast : maxDepth ≤ depth → ∀ e ∈ candidates rules ys.yields a, c.length ≤ e.length := by
    intro hdepth e he
    obtain ⟨m, hm, hle⟩ := ys.le_of_rule _ (mem_candidates.1 he).1 _ (mem_candidates.1 he).2
    rwa [Option.some.inj ((hshort hdepth).symm.trans hm)]
  rw [SortedSet.mem_iff] at hc
  simp only [SortedSet.mem_iff] at hleast
  generalize (candidates rules ys.yields a).toList = cs at hc hsorted hleast ⊢
  cases cs with
  | nil => exact hc
  | cons e es =>
    rw [eligible]
    split
    · rename_i hdepth
      have hce : c.length = e.length := by
        refine Nat.le_antisymm (hleast hdepth e List.mem_cons_self) ?_
        rcases List.mem_cons.1 hc with rfl | hc
        · exact le_rfl
        · exact (List.pairwise_cons.1 hsorted).1 c hc
      refine List.mem_cons.2 ((List.mem_cons.1 hc).imp_right fun hc => ?_)
      exact mem_takeWhile_of_sorted (List.pairwise_cons.1 hsorted).2
        (fun x hx => (List.pairwise_cons.1 hsorted).1 x hx) hc hce
    · exact hc

/-- Whatever may be picked is picked with some draw. -/
lemma exists_draw_of_mem_eligible
    (hc : c ∈ eligible maxDepth depth (candidates rules ys.yields a).toList) :
    ∃ v, ∀ (s : Source) (rest : List UInt32), s.Draws (v :: rest) →
      ∃ s', pickBody ys maxDepth depth a s = .ok c s' ∧ s'.Draws rest := by
  have hlength := (length_eligible_le maxDepth depth _).trans
    (length_candidates_lt rules ys.yields a).le
  cases hl : eligible maxDepth depth (candidates rules ys.yields a).toList with
  | nil =>
    rw [hl] at hc
    exact absurd hc List.not_mem_nil
  | cons e es =>
    rw [hl] at hc hlength
    obtain ⟨v, hv⟩ := Source.exists_draw_of_mem hlength hc
    refine ⟨v, fun s rest hs => ?_⟩
    obtain ⟨s', hpick, hs'⟩ := hv s rest hs
    have hchoose : RandomSource.choose? s e es = some (c, s') := hpick
    exact ⟨s', by simp only [pickBody, hl, hchoose], hs'⟩

/-! ### Trees -/

lemma get?_root_of_follows (ys : ShortestYields rules) (h : d.Follows rules) :
    ys.yields.get? d.root = some (leastLength rules d.root) :=
  ys.get?_eq_some_iff.2 (isLeast_leastLength (derives_of_follows h))

/-- The body of a root is a candidate, and its length is the yield exactly if it gives the root a
shortest word. -/
lemma exists_candidate_of_follows (ys : ShortestYields rules) (h : d.Follows rules) :
    ∃ n, (⟨n, d.body⟩ : Candidate) ∈ candidates rules ys.yields d.root ∧
      (ys.yields.get? d.root = some n ↔ IsLeastBody rules d.root d.body) := by
  have hroot := get?_root_of_follows ys h
  cases d with
  | unit a t =>
    refine ⟨1, mem_candidates.2 ⟨h, rfl⟩, ?_⟩
    rw [hroot, Option.some.injEq]
    rfl
  | binary a left right =>
    obtain ⟨hrule, hleft, hright⟩ := h
    refine ⟨leastLength rules left.root + leastLength rules right.root, mem_candidates.2
      ⟨hrule, Yields.bodyLength?_binary.2 ⟨_, _, get?_root_of_follows ys hleft,
        get?_root_of_follows ys hright, rfl⟩⟩, ?_⟩
    rw [hroot, Option.some.injEq, eq_comm]
    rfl

/-- What is picked for the root of a tree that is made, if it is picked at the greatest depth or
beyond, gives the root a shortest word. -/
lemma isLeastBody_of_pickBody {σ : Type} [RandomSource σ] {s s' : σ} (h : d.Follows rules)
    (hdepth : maxDepth ≤ depth)
    (hpick : pickBody ys maxDepth depth d.root s = .ok ⟨n, d.body⟩ s') :
    IsLeastBody rules d.root d.body := by
  obtain ⟨m, hm, hleast⟩ := exists_candidate_of_follows ys h
  have hlength := (mem_candidates.1 hm).2
  rw [bodyLength?_of_pickBody hpick] at hlength
  obtain rfl : n = m := Option.some.inj hlength
  exact hleast.1 (yield_eq_of_pickBody hdepth hpick)

/-- A random derivation is kept short. -/
theorem keptShort_of_expand {σ : Type} [RandomSource σ] {s s' : σ}
    (h : expand ys maxDepth depth a s = .ok d s') : d.KeptShort rules maxDepth depth := by
  obtain ⟨-, hfollows⟩ := follows_of_expand h
  induction d generalizing depth a s s' with
  | unit x t =>
    obtain ⟨rfl, n, hpick⟩ := expand_eq_unit_iff.1 h
    exact fun hdepth => isLeastBody_of_pickBody hfollows hdepth hpick
  | binary x left right ihl ihr =>
    obtain ⟨rfl, n, s₁, s₂, hpick, hl, hr⟩ := expand_eq_binary_iff.1 h
    exact ⟨fun hdepth => isLeastBody_of_pickBody hfollows hdepth hpick, ihl hl hfollows.2.1,
      ihr hr hfollows.2.2⟩

/-- Some draw makes a source pick the body of the root, if that body gives the root a shortest word
or the root is above the greatest depth. -/
lemma exists_draw_of_follows (ys : ShortestYields rules) (hfollows : d.Follows rules)
    (hshort : maxDepth ≤ depth → IsLeastBody rules d.root d.body) :
    ∃ v n, ∀ (s : Source) (rest : List UInt32), s.Draws (v :: rest) →
      ∃ s', pickBody ys maxDepth depth d.root s = .ok ⟨n, d.body⟩ s' ∧ s'.Draws rest := by
  obtain ⟨n, hn, hleast⟩ := exists_candidate_of_follows ys hfollows
  obtain ⟨v, hv⟩ := exists_draw_of_mem_eligible
    (mem_eligible_iff.2 ⟨hn, fun hdepth => hleast.2 (hshort hdepth)⟩)
  exact ⟨v, n, hv⟩

/-- **Every tree that is kept short is made from some draws.**  The draws after them are still to
come. -/
theorem exists_draws (ys : ShortestYields rules) (hfollows : d.Follows rules)
    (hshort : d.KeptShort rules maxDepth depth) :
    ∃ draws : List UInt32, ∀ (s : Source) (rest : List UInt32), s.Draws (draws ++ rest) →
      ∃ s', expand ys maxDepth depth d.root s = .ok d s' ∧ s'.Draws rest := by
  induction d generalizing depth with
  | unit a t =>
    obtain ⟨v, n, hv⟩ := exists_draw_of_follows ys hfollows hshort
    refine ⟨[v], fun s rest hs => ?_⟩
    obtain ⟨s', hpick, hs'⟩ := hv s rest hs
    exact ⟨s', expand_eq_unit_iff.2 ⟨rfl, n, hpick⟩, hs'⟩
  | binary a left right ihl ihr =>
    obtain ⟨hbody, hsl, hsr⟩ := hshort
    obtain ⟨v, n, hv⟩ := exists_draw_of_follows ys hfollows hbody
    obtain ⟨drawsl, hdrawsl⟩ := ihl hfollows.2.1 hsl
    obtain ⟨drawsr, hdrawsr⟩ := ihr hfollows.2.2 hsr
    -- First the body is picked, then the left half is expanded, then the right half.
    refine ⟨v :: (drawsl ++ drawsr), fun s rest hs => ?_⟩
    rw [List.cons_append, List.append_assoc] at hs
    obtain ⟨s₁, hpick, hs₁⟩ := hv s _ hs
    obtain ⟨s₂, hleft, hs₂⟩ := hdrawsl s₁ _ hs₁
    obtain ⟨s₃, hright, hs₃⟩ := hdrawsr s₂ _ hs₂
    exact ⟨s₃, expand_eq_binary_iff.2 ⟨rfl, n, s₁, s₂, hpick, hleft, hright⟩, hs₃⟩

/-- **A tree is made from some draws exactly if it follows the rules and is kept short.** -/
theorem exists_draws_iff (hys : ShortestYields.compute? rules ≠ none) :
    (∃ draws x', tree rules maxDepth a (Source.scripted draws) = .ok d x') ↔
      d.root = a ∧ d.Follows rules ∧ d.KeptShort rules maxDepth 0 := by
  obtain ⟨ys, hys⟩ := Option.ne_none_iff_exists'.1 hys
  simp only [tree, hys]
  constructor
  · rintro ⟨draws, x', h⟩
    obtain ⟨hroot, hfollows⟩ := follows_of_expand h
    exact ⟨hroot, hfollows, keptShort_of_expand h⟩
  · rintro ⟨rfl, hfollows, hshort⟩
    obtain ⟨draws, hdraws⟩ := exists_draws ys hfollows hshort
    obtain ⟨x', h, -⟩ := hdraws (Source.scripted draws) []
      (by simpa using Source.draws_scripted draws)
    exact ⟨draws, x', h⟩

end Generation

namespace Grammar

open DerivationTree (follows_congr keptShort_congr keptShort_of_levels_le)
open Generation (exists_draws_iff tree word)
open ShortestYields (compute?)

variable {g : Grammar} {rules : List Rule}

/-- **Every derivation that is kept short is made from some draws.**  Let the rules of a grammar be
listed in any order without a yield that is too large.  The random derivations from a nonterminal
are then exactly the trees that start from it, follow the rules and are kept short from the greatest
depth on.  So if a tree follows the rules and is kept short, for instance because it has no more
levels than the greatest depth says, there are finitely many draws that make its word. -/
theorem short_trees_are_generated (hrules : ∀ r, r ∈ rules ↔ r ∈ g.rules)
    (hys : compute? rules ≠ none) (maxDepth : Nat) :
    (∀ a d, (∃ draws x', tree rules maxDepth a (Source.scripted draws) = .ok d x') ↔
      d.root = a ∧ d.Follows g.rules.toList ∧ d.KeptShort g.rules.toList maxDepth 0) ∧
    ∀ d : DerivationTree, d.Follows g.rules.toList →
      d.KeptShort g.rules.toList maxDepth 0 ∨ d.levels ≤ maxDepth →
        ∃ draws x', word rules maxDepth d.root (Source.scripted draws) = .ok d.word x' := by
  have htrees : ∀ a d, (∃ draws x', tree rules maxDepth a (Source.scripted draws) = .ok d x') ↔
      d.root = a ∧ d.Follows g.rules.toList ∧ d.KeptShort g.rules.toList maxDepth 0 := by
    intro a d
    rw [exists_draws_iff hys, follows_congr hrules, keptShort_congr hrules]
  refine ⟨htrees, fun d hfollows hshort => ?_⟩
  have hkept : d.KeptShort g.rules.toList maxDepth 0 :=
    hshort.elim id fun h => keptShort_of_levels_le _ (by omega)
  obtain ⟨draws, x', htree⟩ := (htrees d.root d).2 ⟨rfl, hfollows, hkept⟩
  exact ⟨draws, x', by rw [word, htree]⟩

/-- A tree of brackets for `llrr`.  Its root does not have the body that makes `lr`. -/
def nestedBrackets : DerivationTree :=
  let opening := .unit ⟨'L', Eq.refl true⟩ ⟨'l', Eq.refl true⟩
  let closing := .unit ⟨'R', Eq.refl true⟩ ⟨'r', Eq.refl true⟩
  .binary brackets.balanced opening
    (.binary ⟨'T', Eq.refl true⟩ (.binary brackets.balanced opening closing) closing)

/-- If brackets are kept short from depth one on, some draws make `llrr`, as all nodes below the
root are kept short.  If they are kept short from the root on, no draws do so with this tree. -/
theorem nested_brackets_are_generated :
    compute? brackets.rules.toList ≠ none ∧ nestedBrackets.Follows brackets.rules.toList ∧
      (∃ draws x', word brackets.rules.toList 1 brackets.balanced (Source.scripted draws) =
        .ok nestedBrackets.word x') ∧
      ∀ draws x', tree brackets.rules.toList 0 brackets.balanced (Source.scripted draws) ≠
        .ok nestedBrackets x' := by
  have hrules : ∀ r, r ∈ brackets.rules.toList ↔ r ∈ brackets.rules := fun r => Iff.rfl
  have hfollows : nestedBrackets.Follows brackets.rules.toList := by
    simp only [nestedBrackets, DerivationTree.Follows, DerivationTree.root]
    decide
  obtain ⟨ys, hys⟩ := Option.ne_none_iff_exists'.1 compute?_brackets_ne_none
  have hfound : (Yields.settle brackets.rules.toList .empty).map (fun y =>
      (y.get? brackets.balanced, y.get? ⟨'T', by decide⟩, y.get? ⟨'L', by decide⟩,
        y.get? ⟨'R', by decide⟩)) = some (some 2, some 3, some 1, some 1) := by
    decide +kernel
  rw [← ShortestYields.map_yields_compute?, hys] at hfound
  simp only [Option.map_some, Option.some.injEq, Prod.mk.injEq, ys.get?_eq_some_iff] at hfound
  obtain ⟨hS, hT, hL, hR⟩ := hfound
  have hkept : ∀ maxDepth, nestedBrackets.KeptShort brackets.rules.toList maxDepth 0 ↔
      0 < maxDepth := by
    intro maxDepth
    simp [nestedBrackets, DerivationTree.KeptShort, DerivationTree.root, IsLeastBody, leastLength,
      hS.csInf_eq, hT.csInf_eq, hL.csInf_eq, hR.csInf_eq, Nat.pos_iff_ne_zero]
  refine ⟨compute?_brackets_ne_none, hfollows, ?_, fun draws x' h => ?_⟩
  · exact (short_trees_are_generated hrules compute?_brackets_ne_none 1).2 nestedBrackets hfollows
      (.inl ((hkept 1).2 Nat.one_pos))
  · have hmade := ((short_trees_are_generated hrules compute?_brackets_ne_none 0).1 _ _).1
      ⟨draws, x', h⟩
    exact absurd ((hkept 0).1 hmade.2.2) (Nat.lt_irrefl 0)

end Grammar

end ChomskyGrammar
