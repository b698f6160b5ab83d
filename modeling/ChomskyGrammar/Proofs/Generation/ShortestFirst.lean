/-
# Visiting nonterminals with short words first

Let no rule be too long, that is, let the shortest words of both halves of a rule fit together
(`HasLongRule`).  If all known lengths are least (`Exact`), then no length that is reckoned gets too
large, and a rule can only make a nonterminal known that was not.  It makes its least length known
if it gives a shortest word of its head.  So one sweep finds all least lengths if the heads are
visited by the lengths of their shortest words, and for each of them a body first that gives such a
word (`WellFormed.exists_sweep_heads`).  A grammar can be listed in this way
(`WellFormed.exists_listing`).
-/
import Mathlib.Order.Lattice.Nat
import ChomskyGrammar.Proofs.Generation.KnownLengths
import ChomskyGrammar.Proofs.Grammar.Listing
import ChomskyGrammar.Proofs.Grammar.Reachable

namespace ChomskyGrammar

/-- Whether some rule has halves whose shortest words are too long together. -/
def HasLongRule (rules : List Rule) : Prop :=
  ∃ a b c m n, (⟨a, .binary b c⟩ : Rule) ∈ rules ∧ IsLeast (wordLengths rules b) m ∧
    IsLeast (wordLengths rules c) n ∧ lengthLimit < m + n

namespace Yields

variable {rules rs : List Rule} {r : Rule} {y : Yields} {n : Nat} {a : Nonterminal}

/-! ### Least lengths that are known -/

/-- Every known length is least. -/
def Exact (rules : List Rule) (y : Yields) : Prop :=
  ∀ a n, y.get? a = some n → IsLeast (wordLengths rules a) n

lemma Exact.attained (hy : Exact rules y) : y.Attained rules := fun a n h => (hy a n h).1

/-- Without a rule that is too long, no sum of least lengths gets too large. -/
lemma Exact.bodyLength_le (hy : Exact rules y) (hlong : ¬HasLongRule rules) (hr : r ∈ rules)
    (h : y.bodyLength? r.body = some n) : n ≤ lengthLimit := by
  obtain ⟨a, body⟩ := r
  cases body with
  | unit t =>
    obtain rfl : 1 = n := Option.some.inj h
    decide
  | binary b c =>
    obtain ⟨p, q, hp, hq, rfl⟩ := bodyLength?_binary.1 h
    refine Nat.not_lt.1 fun hlarge => hlong ?_
    exact ⟨a, b, c, p, q, hr, hy b p hp, hy c q hq, hlarge⟩

/-- A rule changes nothing once the length of its head is least. -/
lemma Exact.relax_eq_self (hy : Exact rules y) (hlong : ¬HasLongRule rules) (hr : r ∈ rules)
    (hknown : r.head ∈ y.known) : y.relax r = some y := by
  obtain ⟨m, hm⟩ := mem_known.1 hknown
  rw [relax]
  cases hn : y.bodyLength? r.body with
  | none => rfl
  | some n =>
    have hle := hy.bodyLength_le hlong hr hn
    have hmn : m ≤ n := (hy _ m hm).2 (hy.attained.of_rule hr hn)
    simp [improves, hm, Nat.not_lt.2 hle, Nat.not_lt.2 hmn]

lemma Exact.sweep_eq_self (hy : Exact rules y) (hlong : ¬HasLongRule rules)
    (hrs : ∀ r ∈ rs, r ∈ rules) (hknown : ∀ r ∈ rs, r.head ∈ y.known) :
    y.sweep rs = some y := by
  induction rs with
  | nil => rfl
  | cons r rs ih =>
    obtain ⟨hr, hrs⟩ := List.forall_mem_cons.1 hrs
    obtain ⟨hhead, hknown⟩ := List.forall_mem_cons.1 hknown
    rw [sweep, hy.relax_eq_self hlong hr hhead]
    exact ih hrs hknown

/-- A rule whose body has the least length of its head makes that length known. -/
lemma Exact.exists_relax (hy : Exact rules y) (hlong : ¬HasLongRule rules) (hr : r ∈ rules)
    (hn : y.bodyLength? r.body = some n) (hleast : IsLeast (wordLengths rules r.head) n) :
    ∃ y', y.relax r = some y' ∧ Exact rules y' ∧ y'.known = Insert.insert r.head y.known := by
  by_cases hknown : r.head ∈ y.known
  · exact ⟨y, hy.relax_eq_self hlong hr hknown, hy, (Finset.insert_eq_of_mem hknown).symm⟩
  · have hnone : y.get? r.head = none :=
      Option.eq_none_iff_forall_ne_some.2 fun m hm => hknown (mem_known.2 ⟨m, hm⟩)
    have hle := hy.bodyLength_le hlong hr hn
    refine ⟨y.insert r.head n, by simp [relax, hn, improves, hnone, Nat.not_lt.2 hle], ?_,
      known_insert⟩
    intro a m hm
    rw [get?_insert] at hm
    split at hm
    · rename_i ha
      obtain rfl := Option.some.inj hm
      exact ha ▸ hleast
    · exact hy a m hm

lemma sweep_append (rs rs' : List Rule) :
    y.sweep (rs ++ rs') = (y.sweep rs).bind fun y' => y'.sweep rs' := by
  induction rs generalizing y with
  | nil => rfl
  | cons r rs ih =>
    rw [List.cons_append, sweep, sweep]
    cases y.relax r with
    | none => rfl
    | some y₁ => exact ih

/-- The rules of a head make its least length known, if the first of them does. -/
lemma Exact.exists_sweep_bodies (hy : Exact rules y) (hlong : ¬HasLongRule rules) {b : Body}
    {bs : List Body} (hbs : ∀ b' ∈ b :: bs, (⟨a, b'⟩ : Rule) ∈ rules)
    (hn : y.bodyLength? b = some n) (hleast : IsLeast (wordLengths rules a) n) :
    ∃ y', y.sweep ((b :: bs).map (Rule.mk a)) = some y' ∧ Exact rules y' ∧
      y'.known = Insert.insert a y.known := by
  obtain ⟨hb, hbs⟩ := List.forall_mem_cons.1 hbs
  obtain ⟨y', hrelax, hy', hknown⟩ := hy.exists_relax hlong hb hn hleast
  refine ⟨y', ?_, hy', hknown⟩
  rw [List.map_cons, sweep, hrelax]
  refine hy'.sweep_eq_self hlong (List.forall_mem_map.2 hbs) (List.forall_mem_map.2 fun _ _ => ?_)
  rw [hknown]
  exact Finset.mem_insert_self a _

end Yields

/-! ### Bodies of least length -/

/-- The least length of a word of a nonterminal. -/
noncomputable def leastLength (rules : List Rule) (a : Nonterminal) : Nat :=
  sInf (wordLengths rules a)

section LeastLength

variable {rules : List Rule} {a : Nonterminal} {w : List Terminal}

lemma isLeast_leastLength (h : Derives rules a w) :
    IsLeast (wordLengths rules a) (leastLength rules a) :=
  ⟨Nat.sInf_mem ⟨w.length, w, h, rfl⟩, fun _ hn => Nat.sInf_le hn⟩

lemma leastLength_pos (h : Derives rules a w) : 0 < leastLength rules a := by
  obtain ⟨w, hw, hlength⟩ := (isLeast_leastLength h).1
  rw [← hlength]
  exact List.length_pos_iff.2 hw.ne_nil

/-- Whether a body gives its head a shortest word. -/
def IsLeastBody (rules : List Rule) (a : Nonterminal) : Body → Prop
  | .unit _ => leastLength rules a = 1
  | .binary b c => leastLength rules b + leastLength rules c = leastLength rules a

/-- A shortest word is a letter, or consists of shortest words of both halves of a pair. -/
lemma exists_isLeastBody (h : Derives rules a w) :
    ∃ b, (⟨a, b⟩ : Rule) ∈ rules ∧ IsLeastBody rules a b := by
  have hleast := isLeast_leastLength h
  obtain ⟨w, hw, hlength⟩ := hleast.1
  rcases derives_iff.1 hw with ⟨t, hrule, rfl⟩ | ⟨b, c, u, v, hrule, hu, hv, rfl⟩
  · exact ⟨.unit t, hrule, hlength.symm⟩
  · refine ⟨.binary b c, hrule, ?_⟩
    have hb := isLeast_leastLength hu
    have hc := isLeast_leastLength hv
    have hle : leastLength rules a ≤ leastLength rules b + leastLength rules c := by
      obtain ⟨u', hu', hlu⟩ := hb.1
      obtain ⟨v', hv', hlv⟩ := hc.1
      refine hleast.2 ⟨u' ++ v', derives_append hrule hu' hv', ?_⟩
      rw [List.length_append, hlu, hlv]
    have hbu := hb.2 ⟨u, hu, rfl⟩
    have hcv := hc.2 ⟨v, hv, rfl⟩
    rw [List.length_append] at hlength
    show leastLength rules b + leastLength rules c = leastLength rules a
    omega

end LeastLength

/-! ### An order in which nothing gets too large -/

namespace Grammar

open Yields (Exact)

variable {g : Grammar} {a : Nonterminal} {y : Yields}

/-- A body that gives its head a shortest word has its length known, once all heads with shorter
words are known. -/
lemma WellFormed.bodyLength_of_isLeastBody (hg : g.WellFormed) (hy : y.Exact g.rules.toList)
    {b : Body} (hb : (⟨a, b⟩ : Rule) ∈ g.rules) (hleast : IsLeastBody g.rules.toList a b)
    (hknown : ∀ b ∈ g.heads, leastLength g.rules.toList b < leastLength g.rules.toList a →
      b ∈ y.known) :
    y.bodyLength? b = some (leastLength g.rules.toList a) := by
  cases b with
  | unit t => exact congrArg some (Eq.symm hleast)
  | binary b c =>
    obtain ⟨hbhead, hchead⟩ := hg.halves_mem a b c hb
    obtain ⟨u, hu⟩ := hg.productive b hbhead
    obtain ⟨v, hv⟩ := hg.productive c hchead
    have hbpos := leastLength_pos hu
    have hcpos := leastLength_pos hv
    have hsum : leastLength g.rules.toList b + leastLength g.rules.toList c =
      leastLength g.rules.toList a := hleast
    obtain ⟨p, hp⟩ := Yields.mem_known.1 (hknown b hbhead (by omega))
    obtain ⟨q, hq⟩ := Yields.mem_known.1 (hknown c hchead (by omega))
    rw [← hsum, ← (hy b p hp).unique (isLeast_leastLength hu),
      ← (hy c q hq).unique (isLeast_leastLength hv)]
    exact Yields.bodyLength?_binary.2 ⟨p, q, hp, hq, rfl⟩

/-- A sweep over heads with longer and longer words, each of them with a body that gives it a
shortest word before its other bodies, makes all least lengths known. -/
lemma WellFormed.exists_sweep_heads (hg : g.WellFormed) (hlong : ¬HasLongRule g.rules.toList)
    {bodies : Nonterminal → List Body} (hmem : ∀ a, ∀ b ∈ bodies a, (⟨a, b⟩ : Rule) ∈ g.rules)
    (hfirst : ∀ a ∈ g.heads, ∃ b bs, bodies a = b :: bs ∧ IsLeastBody g.rules.toList a b)
    {as : List Nonterminal} (hheads : ∀ a ∈ as, a ∈ g.heads)
    (hsorted : as.Pairwise fun a b => leastLength g.rules.toList a ≤ leastLength g.rules.toList b)
    (hy : y.Exact g.rules.toList) (hknown : ∀ a ∈ g.heads, a ∈ y.known ∨ a ∈ as) :
    ∃ y', y.sweep (as.flatMap fun a => (bodies a).map (Rule.mk a)) = some y' ∧
      y'.Exact g.rules.toList ∧ ∀ a ∈ g.heads, a ∈ y'.known := by
  induction as generalizing y with
  | nil => exact ⟨y, rfl, hy, fun a ha => (hknown a ha).resolve_right List.not_mem_nil⟩
  | cons a as ih =>
    obtain ⟨ha, hheads⟩ := List.forall_mem_cons.1 hheads
    obtain ⟨hle, hsorted⟩ := List.pairwise_cons.1 hsorted
    obtain ⟨b, bs, hbodies, hb⟩ := hfirst a ha
    obtain ⟨w, hw⟩ := hg.productive a ha
    have hbs : ∀ b' ∈ b :: bs, (⟨a, b'⟩ : Rule) ∈ g.rules.toList := hbodies ▸ hmem a
    -- Heads with shorter words than `a` are neither `a` nor after it.
    have hshorter : ∀ c ∈ g.heads, leastLength g.rules.toList c < leastLength g.rules.toList a →
        c ∈ y.known := by
      intro c hc hlt
      rcases hknown c hc with hc | hc
      · exact hc
      rcases List.mem_cons.1 hc with rfl | hc
      · exact absurd hlt (Nat.lt_irrefl _)
      · exact absurd hlt (Nat.not_lt.2 (hle c hc))
    obtain ⟨y₁, hsweep, hy₁, hknown₁⟩ := hy.exists_sweep_bodies hlong hbs
      (hg.bodyLength_of_isLeastBody hy (hbs b List.mem_cons_self) hb hshorter)
      (isLeast_leastLength hw)
    have hremaining : ∀ c ∈ g.heads, c ∈ y₁.known ∨ c ∈ as := by
      intro c hc
      rw [hknown₁, Finset.mem_insert]
      rcases hknown c hc with hc | hc
      · exact .inl (.inr hc)
      · exact (List.mem_cons.1 hc).imp_left .inl
    obtain ⟨y', hsweep', hy', hall⟩ := ih hheads hsorted hy₁ hremaining
    refine ⟨y', ?_, hy', hall⟩
    rw [List.flatMap_cons, hbodies, Yields.sweep_append, hsweep]
    exact hsweep'

/-- The bodies of each head can be listed with one that gives it a shortest word first. -/
lemma WellFormed.exists_bodies (hg : g.WellFormed) (a : Nonterminal) :
    ∃ bs : List Body, bs.Perm (g.bodies a).toList ∧
      (a ∈ g.heads → ∃ b rest, bs = b :: rest ∧ IsLeastBody g.rules.toList a b) := by
  by_cases ha : a ∈ g.heads
  · obtain ⟨w, hw⟩ := hg.productive a ha
    obtain ⟨b, hb, hleast⟩ := exists_isLeastBody hw
    have hmem : b ∈ (g.bodies a).toList := mem_bodies.2 hb
    exact ⟨b :: (g.bodies a).toList.erase b, (List.perm_cons_erase hmem).symm,
      fun _ => ⟨b, _, rfl, hleast⟩⟩
  · exact ⟨_, .refl _, fun h => absurd h ha⟩

/-- **Without a rule that is too long, the rules can be listed so that nothing gets too large.** -/
theorem WellFormed.exists_listing (hg : g.WellFormed) (hlong : ¬HasLongRule g.rules.toList) :
    ∃ l : g.Listing, ShortestYields.compute? l.rules ≠ none := by
  choose bodies hperm hfirst using hg.exists_bodies
  let as := g.heads.toList.mergeSort fun a b =>
    decide (leastLength g.rules.toList a ≤ leastLength g.rules.toList b)
  have has : as.Perm g.heads.toList := List.mergeSort_perm _ _
  have hsorted : as.Pairwise fun a b =>
      leastLength g.rules.toList a ≤ leastLength g.rules.toList b := by
    refine (List.pairwise_mergeSort ?_ ?_ _).imp of_decide_eq_true
    · simpa using fun a b c => Nat.le_trans
    · simpa using fun a b => Nat.le_total _ _
  let l : g.Listing := ⟨as, bodies, has, hperm⟩
  have hmem : ∀ a, ∀ b ∈ bodies a, (⟨a, b⟩ : Rule) ∈ g.rules :=
    fun a b hb => mem_bodies.1 ((hperm a).mem_iff.1 hb)
  have hempty : Yields.empty.Exact g.rules.toList := fun _ _ h => absurd h (by simp)
  obtain ⟨y, hsweep, hy, hknown⟩ := hg.exists_sweep_heads hlong hmem hfirst
    (fun a ha => has.mem_iff.1 ha) hsorted hempty fun a ha => .inr (has.mem_iff.2 ha)
  -- A second sweep changes nothing any more.
  have hself : y.sweep l.rules = some y := by
    refine hy.sweep_eq_self hlong (fun r hr => l.mem_rules.1 hr) fun r hr => hknown _ ?_
    exact mem_heads.2 ⟨r.body, l.mem_rules.1 hr⟩
  refine ⟨l, fun hnone => ?_⟩
  have hsettle : Yields.settle l.rules .empty = Yields.settle l.rules y :=
    Yields.settle_of_sweep hsweep
  rw [ShortestYields.compute?_eq_none_iff, hsettle, Yields.settle] at hnone
  split at hnone <;> simp_all

end Grammar

end ChomskyGrammar
