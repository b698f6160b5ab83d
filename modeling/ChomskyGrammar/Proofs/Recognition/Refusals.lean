/-
# What a query is refused for

All queries about a word make the same checks in the same order, so they are answered or refused
alike (`queriesEndWith_refusal?`).  First the characters of the word are looked at from left to
right.  The first one that is no declared terminal decides, and whether it is an uppercase letter
decides about the reason; nothing that follows it matters, and nothing else that is wrong with the
grammar.  Then a start symbol has to be chosen, and at last there has to be a rule.  `Refused` says
this of a grammar and a text without the functions that make the checks
(`startAndChart_eq_error_iff`).

As later edits declare what was declared before and make no character a letter that they do not
declare, the refusal for a character outlasts them (`queries_are_refused_alike`).
-/
import ChomskyGrammar.Proofs.Grammar.Extension
import ChomskyGrammar.Proofs.Recognition.Membership
import ChomskyGrammar.Proofs.Text.Lines

namespace ChomskyGrammar

namespace Symbol

/-- A character denotes the symbol that it writes, and no other. -/
lemma classify_eq_some_iff {c : Char} {s : Symbol} : classify c = some s ↔ s.char = c := by
  constructor
  · intro h
    rw [classify] at h
    cases ht : Terminal.ofChar? c with
    | some t =>
      rw [ht] at h
      rw [← Option.some.inj h]
      exact Terminal.ofChar?_eq_some_iff.1 ht
    | none =>
      rw [ht] at h
      obtain ⟨a, ha, rfl⟩ := Option.map_eq_some_iff.1 h
      exact Nonterminal.ofChar?_eq_some_iff.1 ha
  · rintro rfl
    cases s with
    | terminal t => exact classify_terminal t
    | nonterminal a => exact classify_nonterminal a

lemma isUppercase_eq_false_of_classify {c : Char} (h : classify c = none) :
    isUppercase c = false := by
  refine Bool.eq_false_iff.2 fun hc => ?_
  have hsome := classify_nonterminal ⟨c, hc⟩
  exact absurd (h.symm.trans hsome) (by simp)

end Symbol

namespace Grammar

open Generation (wordText)

variable {g : Grammar} {es : List Edit} {c : Char} {cs : List Char} {e : GrammarError}

/-! ### Words -/

/-- Whether a character is a declared terminal. -/
def HasLetter (g : Grammar) (c : Char) : Prop := ∃ t ∈ g.terminals, t.char = c

/-- What a query is refused for if its word has a character that is no declared terminal. -/
def refusalOfLetter (c : Char) : GrammarError :=
  if isUppercase c = true then .nonterminalInWord c else .undeclaredInWord c

lemma readLetter_eq_ok_iff {t : Terminal} :
    g.readLetter c = .ok t ↔ t.char = c ∧ t ∈ g.terminals := by
  constructor
  · intro h
    rw [readLetter] at h
    split at h
    · exact absurd h (by simp)
    · rename_i u hu
      split at h
      · rename_i hmem
        obtain rfl := Except.ok.inj h
        exact ⟨Symbol.classify_eq_some_iff.1 hu, hmem⟩
      · exact absurd h (by simp)
    · exact absurd h (by simp)
  · rintro ⟨rfl, h⟩
    exact readLetter_char h

lemma exists_readLetter_iff : (∃ t, g.readLetter c = .ok t) ↔ g.HasLetter c :=
  exists_congr fun _ => readLetter_eq_ok_iff.trans and_comm

/-- A character that is refused is refused for its own sake. -/
lemma readLetter_eq_error_iff :
    g.readLetter c = .error e ↔ ¬g.HasLetter c ∧ e = refusalOfLetter c := by
  rw [← exists_readLetter_iff, readLetter, refusalOfLetter]
  cases hc : Symbol.classify c with
  | none => simp [Symbol.isUppercase_eq_false_of_classify hc, eq_comm]
  | some s =>
    obtain rfl := Symbol.classify_eq_some_iff.1 hc
    cases s with
    | nonterminal a => simp [Symbol.char, a.uppercase, eq_comm]
    | terminal t =>
      have ht : isUppercase t.char = false := isUppercase_eq_false_of_isLowercase t.lowercase
      by_cases hmem : t ∈ g.terminals <;> simp [Symbol.char, ht, hmem, eq_comm]

/-- A word is read as the declared terminals that its characters write. -/
lemma readWord_eq_ok_iff {w : List Terminal} :
    g.readWord cs = .ok w ↔ (w.map fun t => t.char) = cs ∧ ∀ t ∈ w, t ∈ g.terminals := by
  constructor
  · intro h
    have hletters := (mapM_eq_ok_iff.1 h).imp fun _ _ => readLetter_eq_ok_iff.1
    clear h
    induction hletters with
    | nil => exact ⟨rfl, by simp⟩
    | cons hhead _ ih =>
      obtain ⟨rfl, hmem⟩ := hhead
      exact ⟨congrArg _ ih.1, List.forall_mem_cons.2 ⟨hmem, ih.2⟩⟩
  · rintro ⟨rfl, hw⟩
    have hread := readWord_wordText hw
    rwa [wordText, String.toList_ofList] at hread

/-- A word is refused for the first of its characters that is no declared terminal. -/
lemma readWord_eq_error_iff :
    g.readWord cs = .error e ↔ ∃ before c after, cs = before ++ c :: after ∧
      (∀ d ∈ before, g.HasLetter d) ∧ ¬g.HasLetter c ∧ e = refusalOfLetter c := by
  simp only [readWord, mapM_eq_error_iff, exists_readLetter_iff, readLetter_eq_error_iff]

/-- A word is read if all of its characters are declared letters. -/
lemma exists_readWord_iff : (∃ w, g.readWord cs = .ok w) ↔ ∀ c ∈ cs, g.HasLetter c := by
  constructor
  · rintro ⟨w, hw⟩ c hc
    obtain ⟨rfl, hmem⟩ := readWord_eq_ok_iff.1 hw
    obtain ⟨t, ht, rfl⟩ := List.mem_map.1 hc
    exact ⟨t, hmem t ht, rfl⟩
  · intro h
    cases hread : g.readWord cs with
    | ok w => exact ⟨w, rfl⟩
    | error e =>
      obtain ⟨before, c, after, rfl, -, hc, -⟩ := readWord_eq_error_iff.1 hread
      exact absurd (h c (by simp)) hc

/-! ### The first fault -/

/-- What a query about a text is refused for. -/
inductive Refused (g : Grammar) (text : String) : GrammarError → Prop
  /-- The first character of the word that is no declared terminal, whatever follows it. -/
  | letter {before after : List Char} {c : Char} (htext : text.toList = before ++ c :: after)
    (hbefore : ∀ d ∈ before, g.HasLetter d) (hc : ¬g.HasLetter c) :
    Refused g text (refusalOfLetter c)
  /-- The word is fine, but there is nothing to derive it from. -/
  | noStart (hletters : ∀ c ∈ text.toList, g.HasLetter c) (hs : g.start = none) :
    Refused g text .noStart
  /-- There is nothing to derive it with. -/
  | noRules (hletters : ∀ c ∈ text.toList, g.HasLetter c) (hs : g.start ≠ none)
    (hr : g.ruleCount = 0) : Refused g text .noRules

variable {text : String}

lemma isEmpty_of_ruleCount (hr : g.ruleCount = 0) : g.isEmpty = true := by
  have hrules : g.rules.toList = [] := List.length_eq_zero_iff.1 hr
  simp [isEmpty, SortedSet.isEmpty, hrules]

lemma startAndChart_of_readWord {w : List Terminal} (h : g.readWord text.toList = .ok w) :
    g.startAndChart text = g.queryStart.map fun a => (a, Chart.ofWord g.rules.toList w) := by
  rw [startAndChart, h]
  cases g.queryStart <;> rfl

/-- A bad character is reported whatever else there is to report. -/
lemma startAndChart_of_letter {before after : List Char}
    (htext : text.toList = before ++ c :: after) (hbefore : ∀ d ∈ before, g.HasLetter d)
    (hc : ¬g.HasLetter c) : g.startAndChart text = .error (refusalOfLetter c) := by
  have hread : g.readWord text.toList = .error (refusalOfLetter c) :=
    readWord_eq_error_iff.2 ⟨before, c, after, htext, hbefore, hc, rfl⟩
  rw [startAndChart, hread]

/-- **A query is refused exactly for the first fault.** -/
theorem WellFormed.startAndChart_eq_error_iff (hg : g.WellFormed) :
    g.startAndChart text = .error e ↔ g.Refused text e := by
  constructor
  · intro h
    cases hread : g.readWord text.toList with
    | error e' =>
      obtain ⟨before, c, after, htext, hbefore, hc, rfl⟩ := readWord_eq_error_iff.1 hread
      rw [startAndChart_of_letter htext hbefore hc] at h
      exact Except.error.inj h ▸ .letter htext hbefore hc
    | ok w =>
      have hletters := exists_readWord_iff.1 ⟨w, hread⟩
      rw [startAndChart_of_readWord hread, queryStart] at h
      cases hs : g.start with
      | none =>
        rw [hs] at h
        exact Except.error.inj h ▸ .noStart hletters hs
      | some a =>
        simp only [hs] at h
        split at h
        · rename_i hempty
          refine Except.error.inj h ▸ .noRules hletters (by simp [hs]) ?_
          refine Nat.eq_zero_of_not_pos fun hr => ?_
          rw [hg.isEmpty_eq_false hs hr] at hempty
          exact Bool.false_ne_true hempty
        · exact absurd h (by simp [Except.map])
  · intro h
    cases h with
    | letter htext hbefore hc => exact startAndChart_of_letter htext hbefore hc
    | noStart hletters hs =>
      obtain ⟨w, hw⟩ := exists_readWord_iff.2 hletters
      rw [startAndChart_of_readWord hw, queryStart, hs]
      rfl
    | noRules hletters hs hr =>
      obtain ⟨w, hw⟩ := exists_readWord_iff.2 hletters
      obtain ⟨a, ha⟩ := Option.ne_none_iff_exists'.1 hs
      simp [startAndChart_of_readWord hw, queryStart, ha, isEmpty_of_ruleCount hr, Except.map]

/-- A question about a word is answered if the word is made of declared letters and the grammar has
a start symbol and a rule. -/
lemma WellFormed.exists_startAndChart_iff (hg : g.WellFormed) :
    (∃ p, g.startAndChart text = .ok p) ↔
      (∀ c ∈ text.toList, g.HasLetter c) ∧ (∃ a, g.start = some a) ∧ 0 < g.ruleCount := by
  constructor
  · rintro ⟨⟨a, chart⟩, h⟩
    obtain ⟨w, hw, hs, hempty, -⟩ := startAndChart_eq_ok_iff.1 h
    refine ⟨exists_readWord_iff.1 ⟨w, hw⟩, ⟨a, hs⟩, Nat.pos_of_ne_zero fun hr => ?_⟩
    rw [isEmpty_of_ruleCount hr] at hempty
    exact Bool.false_ne_true hempty.symm
  · rintro ⟨hletters, ⟨a, hs⟩, hr⟩
    obtain ⟨w, hw⟩ := exists_readWord_iff.2 hletters
    exact ⟨_, startAndChart_eq_ok_iff.2 ⟨w, hw, hs, hg.isEmpty_eq_false hs hr, rfl⟩⟩

/-! ### All queries -/

/-- What something is refused for, if it is refused. -/
def refusal? {α : Type} : Except GrammarError α → Option GrammarError
  | .error e => some e
  | .ok _ => none

lemma refusal?_eq_some_iff {α : Type} {r : Except GrammarError α} :
    refusal? r = some e ↔ r = .error e := by
  cases r <;> simp [refusal?]

lemma refusal?_map {α β : Type} (r : Except GrammarError α) (f : α → β) :
    refusal? (r.map f) = refusal? r := by
  cases r <;> rfl

/-- Whether all queries about a text are answered, or are refused for the same reason. -/
structure QueriesEndWith (g : Grammar) (text : String) (refusal : Option GrammarError) : Prop where
  chart : refusal? (g.chart text) = refusal
  membership : refusal? (g.membership text) = refusal
  derives : refusal? (g.derives text) = refusal
  chartText : refusal? (g.chartText text) = refusal

lemma queriesEndWith_refusal? (g : Grammar) (text : String) :
    g.QueriesEndWith text (refusal? (g.startAndChart text)) where
  chart := refusal?_map _ _
  membership := refusal?_map _ _
  derives := by rw [Grammar.derives, refusal?_map, Grammar.membership, refusal?_map]
  chartText := by rw [Grammar.chartText, refusal?_map, Grammar.chart, refusal?_map]

lemma queriesEndWith_of_letter {before after : List Char} (hbefore : ∀ d ∈ before, g.HasLetter d)
    (hc : ¬g.HasLetter c) :
    g.QueriesEndWith (String.ofList (before ++ c :: after)) (some (refusalOfLetter c)) := by
  have hquery : g.startAndChart (String.ofList (before ++ c :: after)) =
      .error (refusalOfLetter c) :=
    startAndChart_of_letter (String.toList_ofList ..) hbefore hc
  have hends := g.queriesEndWith_refusal? (String.ofList (before ++ c :: after))
  rwa [hquery] at hends

/-! ### Later edits -/

lemma IsPartOf.hasLetter {g' : Grammar} (h : g.IsPartOf g') (hc : g.HasLetter c) :
    g'.HasLetter c := by
  obtain ⟨t, ht, rfl⟩ := hc
  exact ⟨t, h.mem_terminals t ht, rfl⟩

/-- Edits that do not declare a character do not make it a letter. -/
lemma hasLetter_of_foldl_attempt (hes : .declareTerminal c ∉ es)
    (hc : (es.foldl attempt g).HasLetter c) : g.HasLetter c := by
  refine foldl_attempt_induct (P := fun g' => g'.HasLetter c → g.HasLetter c) id ?_ hc
  rintro g₁ e g₂ ih he hok ⟨t, ht, rfl⟩
  rcases edit_cases hok with ⟨a, -, -, rfl⟩ | ⟨u, rfl, -, rfl⟩ | ⟨a, -, -, rfl⟩ |
    ⟨r, -, -, -, rfl⟩ | ⟨-, rfl⟩
  · exact ih ⟨t, ht, rfl⟩
  · rcases SortedSet.mem_insert.1 ht with rfl | ht
    · exact absurd he hes
    · exact ih ⟨t, ht, rfl⟩
  · exact ih ⟨t, ht, rfl⟩
  · exact ih ⟨t, ht, rfl⟩
  · exact absurd ht (SortedSet.not_mem_empty t)

/-- **All queries about a word are refused alike, for the first fault.**  The queries about a word
of a reachable grammar are all answered, or all refused for the same reason, which is that of the
first fault.  In particular, let two words begin with the same declared letters, followed by the
same character that is no declared terminal.  A query about the one is refused for the same reason
as a query about the other after any edits that neither reset the grammar nor declare this
character. -/
theorem queries_are_refused_alike (hg : g.Reachable) :
    (∀ text, ∃ refusal, g.QueriesEndWith text refusal ∧
      ∀ e, refusal = some e ↔ g.Refused text e) ∧
    ∀ (before : List Char) (c : Char) (after after' : List Char) (es : List Edit),
      (∀ d ∈ before, g.HasLetter d) → ¬g.HasLetter c → .reset ∉ es → .declareTerminal c ∉ es →
        g.QueriesEndWith (String.ofList (before ++ c :: after)) (some (refusalOfLetter c)) ∧
        (es.foldl attempt g).QueriesEndWith (String.ofList (before ++ c :: after'))
          (some (refusalOfLetter c)) := by
  refine ⟨fun text => ⟨_, g.queriesEndWith_refusal? text, fun e => ?_⟩, ?_⟩
  · exact refusal?_eq_some_iff.trans hg.wellFormed.startAndChart_eq_error_iff
  · -- The characters before the bad one stay letters, and it does not become one.
    intro before c after after' es hbefore hc hreset hdeclared
    have hpart : g.IsPartOf (es.foldl attempt g) := isPartOf_foldl_attempt hreset
    refine ⟨queriesEndWith_of_letter hbefore hc, queriesEndWith_of_letter ?_ ?_⟩
    · exact fun d hd => hpart.hasLetter (hbefore d hd)
    · exact fun h => hc (hasLetter_of_foldl_attempt hdeclared h)

/-- A nonterminal among brackets is reported, not the letter after it that is declared later on. -/
theorem nonterminal_among_brackets_is_reported :
    let es := [Edit.declareTerminal 'x', .addRule 'T' "x", .setStart 'T']
    brackets.Reachable ∧ (∀ d ∈ ['l', 'r'], brackets.HasLetter d) ∧ ¬brackets.HasLetter 'S' ∧
      .reset ∉ es ∧ .declareTerminal 'S' ∉ es ∧
      brackets.QueriesEndWith "lrSx" (some (.nonterminalInWord 'S')) ∧
      (es.foldl attempt brackets).QueriesEndWith "lrSr" (some (.nonterminalInWord 'S')) := by
  intro es
  have hbefore : ∀ d ∈ ['l', 'r'], brackets.HasLetter d := by
    simp only [List.forall_mem_cons]
    exact ⟨⟨⟨'l', by decide⟩, by decide, rfl⟩, ⟨⟨'r', by decide⟩, by decide, rfl⟩, by simp⟩
  have hread : brackets.readLetter 'S' = .error (.nonterminalInWord 'S') := by decide
  have hc : ¬brackets.HasLetter 'S' := (readLetter_eq_error_iff.1 hread).1
  obtain ⟨hx, hr⟩ := (queries_are_refused_alike reachable_brackets).2 ['l', 'r'] 'S' ['x'] ['r'] es
    hbefore hc (by decide) (by decide)
  exact ⟨reachable_brackets, hbefore, hc, by decide, by decide, hx, hr⟩

end Grammar

end ChomskyGrammar
