/-
# Random words, queries and derivations agree

The making of random words and the queries about words share nothing but the rules: a random
word comes from expansions from the top down, and a query fills a chart from the bottom up.
Both agree with the derivations of the grammar, so they agree with each other:

* `random_words_are_recognized`: a query about a random word is not refused, and the answer
  is that the word is derived;
* `random_words_exist_iff`: the making of a random word fails only at the nonterminal that it
  starts from, and only if that one has no rules.

The order in which the rules are listed is left open; `Grammar.generate` and
`Grammar.generateFrom` list them in ascending order.
-/
import ChomskyGrammar.Proofs.Generation.Progress
import ChomskyGrammar.Proofs.Recognition.Membership

namespace ChomskyGrammar

namespace Grammar

open Generation (word wordFromStart wordText derives_of_word exists_word word_of_no_rule)
open RandomSource (Tireless)

variable {σ : Type} [RandomSource σ] {g : Grammar} {rules : List Rule} {maxDepth : Nat}
  {a : Nonterminal} {w : List Terminal} {x x' : σ}

/-- Whatever the order in which the rules are listed, they derive the same words. -/
lemma derives_listing_iff (hrules : ∀ r, r ∈ rules ↔ r ∈ g.rules) :
    Derives rules a w ↔ Derives g.rules.toList a w :=
  ⟨fun h => h.mono fun r hr => (hrules r).1 hr, fun h => h.mono fun r hr => (hrules r).2 hr⟩

/-- A nonterminal with rules has a random word. -/
lemma WellFormed.exists_word_of_mem_heads (hg : g.WellFormed)
    (hrules : ∀ r, r ∈ rules ↔ r ∈ g.rules) (hys : ShortestYields.compute? rules ≠ none)
    (maxDepth : Nat) (hx : Tireless x) (ha : a ∈ g.heads) :
    ∃ w x', word rules maxDepth a x = .ok w x' := by
  obtain ⟨w, hw⟩ := hg.productive a ha
  exact exists_word hys maxDepth hx ((derives_listing_iff hrules).2 hw)

/-- **Random words are recognized.**  Let the rules of a reachable grammar be listed in any
order.  The query about a random word made from the start symbol is answered by yes.  A random
word made from any nonterminal is not empty, its letters are declared, the nonterminal derives
it, and, if there is a start symbol to ask from, the nonterminal is in the cell of the whole
word. -/
theorem random_words_are_recognized (hg : g.Reachable)
    (hrules : ∀ r, r ∈ rules ↔ r ∈ g.rules) (maxDepth : Nat) (x x' : σ) :
    (∀ w, wordFromStart rules g.start maxDepth x = .ok w x' →
      g.derives (wordText w) = .ok true) ∧
    ∀ a w, word rules maxDepth a x = .ok w x' →
      w ≠ [] ∧ (∀ t ∈ w, t ∈ g.terminals) ∧ Derives g.rules.toList a w ∧
        ∀ s, g.start = some s →
          ∃ chart, g.chart (wordText w) = .ok chart ∧ chart.derives a = true := by
  have hwf := hg.wellFormed
  constructor
  · intro w hw
    cases hs : g.start with
    | none =>
      rw [hs] at hw
      exact absurd hw (by simp [wordFromStart])
    | some s =>
      rw [hs] at hw
      exact hwf.derives_wordText hs ((derives_listing_iff hrules).1 (derives_of_word hw))
  · intro a w hw
    have hd := (derives_listing_iff hrules).1 (derives_of_word hw)
    exact ⟨hd.ne_nil, hwf.terminal_of_derives hd, hd,
      fun s hs => hwf.exists_chart_of_derives hs hd⟩

/-- The lengths of shortest words of brackets do not get too large. -/
lemma compute?_brackets_ne_none : ShortestYields.compute? brackets.rules.toList ≠ none := by
  rw [ne_eq, ShortestYields.compute?_eq_none_iff]
  decide +kernel

/-- The source of zeros makes a word of brackets, and the word is recognized. -/
theorem random_brackets_are_recognized :
    brackets.Reachable ∧ ∃ w x', wordFromStart brackets.rules.toList brackets.start 3
        (Source.scripted []) = .ok w x' ∧
      brackets.derives (wordText w) = .ok true ∧ w ≠ [] ∧ (∀ t ∈ w, t ∈ brackets.terminals) ∧
        Derives brackets.rules.toList brackets.balanced w ∧
          ∃ chart, brackets.chart (wordText w) = .ok chart ∧
            chart.derives brackets.balanced = true := by
  have hrules : ∀ r, r ∈ brackets.rules.toList ↔ r ∈ brackets.rules := fun r => Iff.rfl
  have hmem : brackets.balanced ∈ brackets.heads := by decide
  obtain ⟨w, x', hw⟩ := reachable_brackets.wellFormed.exists_word_of_mem_heads hrules
    compute?_brackets_ne_none 3 Source.tireless_scripted_nil hmem
  obtain ⟨hstart, hfrom⟩ :=
    random_words_are_recognized reachable_brackets hrules 3 (Source.scripted []) x'
  have hw' : wordFromStart brackets.rules.toList brackets.start 3 (Source.scripted []) =
      .ok w x' := by
    rw [start_brackets]
    exact hw
  obtain ⟨hne, hletters, hderives, hchart⟩ := hfrom _ w hw
  exact ⟨reachable_brackets, w, x', hw', hstart w hw', hne, hletters, hderives,
    hchart _ start_brackets⟩

lemma word_of_not_mem_heads (hrules : ∀ r, r ∈ rules ↔ r ∈ g.rules)
    (hys : ShortestYields.compute? rules ≠ none) (ha : a ∉ g.heads) :
    word rules maxDepth a x = .error (.noRules a.char) x := by
  refine word_of_no_rule hys fun b hb => ha ?_
  exact mem_heads.2 ⟨b, (hrules _).1 hb⟩

/-- **The making of a random word fails only at the nonterminal that it starts from.**  Let
the rules of a reachable grammar be listed in any order, without a yield that is too large,
and let the source be tireless.  A nonterminal is said to have no rules exactly if it has none,
it is then the one that was asked for, and nothing has been picked; a nonterminal with rules
has a random word.  A missing start symbol is reported exactly if there is none, and otherwise
the word is made from the start symbol.  So the start symbol has a random word exactly if some
query is answered by yes. -/
theorem random_words_exist_iff (hg : g.Reachable) (hrules : ∀ r, r ∈ rules ↔ r ∈ g.rules)
    (hys : ShortestYields.compute? rules ≠ none) (maxDepth : Nat) (hx : Tireless x) :
    (∀ a c x', word rules maxDepth a x = .error (.noRules c) x' ↔
      a ∉ g.heads ∧ c = a.char ∧ x' = x) ∧
    (∀ a ∈ g.heads, ∃ w x', word rules maxDepth a x = .ok w x') ∧
    (∀ x', wordFromStart rules g.start maxDepth x = .error .noStart x' ↔
      g.start = none ∧ x' = x) ∧
    ∀ s, g.start = some s →
      wordFromStart rules g.start maxDepth x = word rules maxDepth s x ∧
      ((∃ w x', wordFromStart rules g.start maxDepth x = .ok w x') ↔
        ∃ text, g.derives text = .ok true) := by
  have hwf := hg.wellFormed
  have hword : ∀ a ∈ g.heads, ∃ w x', word rules maxDepth a x = .ok w x' :=
    fun a ha => hwf.exists_word_of_mem_heads hrules hys maxDepth hx ha
  have hnone : ∀ a, a ∉ g.heads → word rules maxDepth a x = .error (.noRules a.char) x :=
    fun a ha => word_of_not_mem_heads hrules hys ha
  refine ⟨?_, hword, ?_, ?_⟩
  · intro a c x'
    constructor
    · intro h
      by_cases ha : a ∈ g.heads
      · obtain ⟨w, y, hw⟩ := hword a ha
        rw [hw] at h
        exact absurd h (by simp)
      · rw [hnone a ha] at h
        obtain ⟨hc, rfl⟩ := EStateM.Result.error.inj h
        exact ⟨ha, (GenerationError.noRules.inj hc).symm, rfl⟩
    · rintro ⟨ha, rfl, rfl⟩
      exact hnone a ha
  · intro x'
    cases hs : g.start with
    | none => simp [wordFromStart, eq_comm]
    | some s =>
      -- The word of a start symbol fails for want of rules, if at all.
      show word rules maxDepth s x = .error .noStart x' ↔ _
      by_cases ha : s ∈ g.heads
      · obtain ⟨w, y, hw⟩ := hword s ha
        simp [hw]
      · simp [hnone s ha]
  · intro s hs
    rw [hs]
    refine ⟨rfl, ?_⟩
    constructor
    · rintro ⟨w, x', hw⟩
      exact ⟨_, hwf.derives_wordText hs ((derives_listing_iff hrules).1 (derives_of_word hw))⟩
    · rintro ⟨text, htext⟩
      obtain ⟨s', w, hs', -, hw⟩ := hwf.derives_eq_true_iff.1 htext
      obtain rfl := Option.some.inj (hs.symm.trans hs')
      exact exists_word hys maxDepth hx ((derives_listing_iff hrules).2 hw)

/-- The source of zeros makes a word of brackets, as some brackets are recognized, and says that
the undeclared `A` has no rules. -/
theorem random_brackets_exist :
    brackets.Reachable ∧ ShortestYields.compute? brackets.rules.toList ≠ none ∧
      Tireless (Source.scripted []) ∧
      (∃ w x', wordFromStart brackets.rules.toList brackets.start 0 (Source.scripted []) =
        .ok w x') ∧
      word brackets.rules.toList 0 ⟨'A', by decide⟩ (Source.scripted []) =
        .error (.noRules 'A') (Source.scripted []) := by
  have hrules : ∀ r, r ∈ brackets.rules.toList ↔ r ∈ brackets.rules := fun r => Iff.rfl
  obtain ⟨hnone, -, -, hstart⟩ := random_words_exist_iff reachable_brackets hrules
    compute?_brackets_ne_none 0 Source.tireless_scripted_nil
  refine ⟨reachable_brackets, compute?_brackets_ne_none, Source.tireless_scripted_nil, ?_, ?_⟩
  · have hquery : brackets.derives "llrr" = .ok true := by decide +kernel
    exact (hstart _ start_brackets).2.2 ⟨"llrr", hquery⟩
  · exact (hnone _ 'A' _).2 ⟨by decide, rfl, rfl⟩

end Grammar

end ChomskyGrammar
