/-
# Edits in place

`Grammar.edit` gives back a new grammar or a refusal, so it cannot leave anything half done.  On the
store of a grammar, edits that are made in place do the same (`perform_store`): every nonterminal
that has rules has a set of them in the store, no other one has, and it stays so because no edit
makes a set before its body is read.  Main result: refused edits can be left out of any list of
edits, and nothing else changes (`refused_edits_leave_no_trace`).
-/
import ChomskyGrammar.Proofs.Grammar.Reachable
import ChomskyGrammar.Proofs.Grammar.Store

namespace ChomskyGrammar

namespace Grammar

open Store

variable {g g' : Grammar}

/-! ### The store of a grammar -/

/-- The parts of a grammar, where the nonterminals that have rules have a set of them. -/
def store (g : Grammar) : Store where
  nonterminals := g.nonterminals
  terminals := g.terminals
  start := g.start
  ruleSet? a := if a ∈ g.heads then some (g.bodies a) else none

lemma mem_rules_iff_store {r : Rule} :
    r ∈ g.rules ↔ ∃ bs, g.store.ruleSet? r.head = some bs ∧ r.body ∈ bs := by
  obtain ⟨a, b⟩ := r
  simp only [store, Option.ite_none_right_eq_some, Option.some.injEq]
  constructor
  · intro h
    exact ⟨g.bodies a, ⟨mem_heads.2 ⟨b, h⟩, rfl⟩, mem_bodies.2 h⟩
  · rintro ⟨bs, ⟨-, rfl⟩, hb⟩
    exact mem_bodies.1 hb

/-- A grammar is determined by its store. -/
lemma store_injective : Function.Injective store := by
  intro g g' h
  have hrules : g.rules = g'.rules := SortedSet.ext_mem fun r => by
    rw [mem_rules_iff_store, mem_rules_iff_store, h]
  obtain ⟨N, T, s, R⟩ := g
  obtain ⟨N', T', s', R'⟩ := g'
  obtain rfl : R = R' := hrules
  obtain ⟨rfl, rfl, rfl, -⟩ := Store.mk.inj h
  rfl

lemma store_empty : empty.store = .empty := by
  refine (Store.mk.injEq ..).mpr ⟨rfl, rfl, rfl, funext fun a => if_neg fun ha => ?_⟩
  obtain ⟨b, hb⟩ := mem_heads.1 ha
  exact SortedSet.not_mem_empty _ hb

lemma store_insert_rule (g : Grammar) (r : Rule) :
    ({ g with rules := g.rules.insert r } : Grammar).store = g.store.withBody r.head r.body := by
  obtain ⟨a, b⟩ := r
  refine (Store.mk.injEq ..).mpr ⟨rfl, rfl, rfl, funext fun a' => ?_⟩
  by_cases ha : a' = a
  · -- The set of the head has one more body, also if it has just been made.
    subst ha
    have hmem : a' ∈ ({ g with rules := g.rules.insert ⟨a', b⟩ } : Grammar).heads :=
      mem_heads_insert.2 (.inl rfl)
    rw [Function.update_self]
    refine (if_pos hmem).trans (congrArg some (SortedSet.ext_mem fun b' => ?_))
    rw [mem_bodies, SortedSet.mem_insert, SortedSet.mem_insert, Rule.mk.injEq]
    refine or_congr (and_iff_right rfl) ?_
    by_cases hold : a' ∈ g.heads
    · simp [store, hold, mem_bodies]
    · have hnone : (⟨a', b'⟩ : Rule) ∉ g.rules := fun h => hold (mem_heads.2 ⟨b', h⟩)
      simp [store, hold, hnone, SortedSet.not_mem_empty]
  · -- All other nonterminals keep their sets, or have none.
    rw [Function.update_of_ne ha]
    have hheads : a' ∈ ({ g with rules := g.rules.insert ⟨a, b⟩ } : Grammar).heads ↔ a' ∈ g.heads :=
      mem_heads_insert.trans (or_iff_right ha)
    have hbodies : ({ g with rules := g.rules.insert ⟨a, b⟩ } : Grammar).bodies a' = g.bodies a' :=
      SortedSet.ext_mem fun b' => by
        rw [mem_bodies, mem_bodies, SortedSet.mem_insert]
        exact or_iff_right fun h => ha (congrArg Rule.head h)
    simp only [store, hheads, hbodies]

lemma declared_store (refusal : GrammarError) (c : Char) :
    declared refusal c g.store = orRefuse refusal (g.declared? c) g.store := rfl

lemma productive_store (c : Char) :
    productive c g.store = orRefuse (.undefinedInBody c) (g.productive? c) g.store := by
  have hsome : ∀ a, (g.store.ruleSet? a).isSome = decide (a ∈ g.heads) := by
    intro a
    by_cases ha : a ∈ g.heads <;> simp [store, ha]
  rw [productive_apply, productive?]
  simp only [hsome]

lemma readBody_store (cs : List Char) :
    Store.readBody cs g.store = unwritten g.store (g.readBody cs) := by
  match cs with
  | [] => rfl
  | [c] =>
    rw [Store.readBody, Grammar.readBody]
    cases Terminal.ofChar? c with
    | none => rfl
    | some t =>
      show (if t ∈ g.terminals then _ else _ : Action Body) g.store = unwritten g.store (ite _ _ _)
      split <;> rfl
  | [l, r] =>
    rw [Store.readBody, Grammar.readBody]
    split
    · cases hl : g.productive? l with
      | none => exact bind_of_error (by rw [productive_store, hl]; rfl)
      | some a =>
        refine (bind_of_ok (by rw [productive_store, hl]; rfl)).trans ?_
        cases hr : g.productive? r with
        | none => exact bind_of_error (by rw [productive_store, hr]; rfl)
        | some b => exact bind_of_ok (by rw [productive_store, hr]; rfl)
    · rfl
  | _ :: _ :: _ :: _ => rfl

/-- **What an edit makes of a grammar, it does to the store of the grammar in place.** -/
theorem perform_store (g : Grammar) (e : Edit) :
    perform e g.store = match g.edit e with
      | .ok g' => .ok () g'.store
      | .error err => .error err g.store := by
  cases e with
  | declareNonterminal c =>
    rw [edit, Grammar.declareNonterminal]
    show ((ofExcept (Nonterminal.read c) : Action Nonterminal) >>= _) g.store = _
    cases Nonterminal.read c with
    | error err => rfl
    | ok a =>
      show (if a ∈ g.nonterminals then _ else _ : Action Unit) g.store = _
      by_cases ha : a ∈ g.nonterminals
      · simp only [if_pos ha]
        rfl
      · simp only [if_neg ha]
        rfl
  | declareTerminal c =>
    rw [edit, Grammar.declareTerminal]
    show ((ofExcept (Terminal.read c) : Action Terminal) >>= _) g.store = _
    cases Terminal.read c with
    | error err => rfl
    | ok t =>
      show (if t ∈ g.terminals then _ else _ : Action Unit) g.store = _
      by_cases ht : t ∈ g.terminals
      · simp only [if_pos ht]
        rfl
      · simp only [if_neg ht]
        rfl
  | setStart c =>
    rw [edit, Grammar.setStart]
    show (declared (.undeclaredStart c) c >>= _) g.store = _
    have hdeclared := declared_store (g := g) (.undeclaredStart c) c
    cases ha : g.declared? c with
    | none =>
      rw [ha] at hdeclared
      exact bind_of_error hdeclared
    | some a =>
      rw [ha] at hdeclared
      rw [bind_of_ok hdeclared]
      rfl
  | addRule head body =>
    rw [edit, Grammar.addRule]
    show (declared (.undeclaredHead head) head >>= _) g.store = _
    have hdeclared := declared_store (g := g) (.undeclaredHead head) head
    cases ha : g.declared? head with
    | none =>
      rw [ha] at hdeclared
      exact bind_of_error hdeclared
    | some a =>
      rw [ha] at hdeclared
      rw [bind_of_ok hdeclared]
      have hread := readBody_store (g := g) body.toList
      cases hb : g.readBody body.toList with
      | error err =>
        rw [hb] at hread
        exact bind_of_error hread
      | ok b =>
        rw [hb] at hread
        rw [bind_of_ok hread, makeRuleSet_putBody]
        exact congrArg _ (store_insert_rule g ⟨a, b⟩).symm
  | reset => exact congrArg (EStateM.Result.ok ()) store_empty.symm

/-- Edits in place do to the store what attempts do to the grammar. -/
lemma performAll_store (g : Grammar) (es : List Edit) :
    (g.store.performAll es).2 = (es.foldl attempt g).store := by
  induction es generalizing g with
  | nil => rfl
  | cons e es ih =>
    have hperform := perform_store g e
    rw [performAll, List.foldl_cons, attempt]
    cases he : g.edit e with
    | ok g' =>
      rw [he] at hperform
      rw [hperform]
      exact ih g'
    | error err =>
      rw [he] at hperform
      rw [hperform]
      exact ih g

/-- **Refused edits leave no trace, and accepted ones change one thing.**  Let edits be made in
place, on the store of a grammar.  A refused edit leaves the store as it is.  An accepted one makes
it the store of the grammar that the edit leads to, and its effect is local.  So in any list of
edits, those that are refused can be left out: then no edit is refused, and the grammar in the end
is the same. -/
theorem refused_edits_leave_no_trace (g : Grammar) :
    (∀ e err, g.edit e = .error err → perform e g.store = .error err g.store) ∧
    (∀ e g', g.edit e = .ok g' →
      perform e g.store = .ok () g'.store ∧ g.store.Effect e g'.store) ∧
    ∀ es, ∃ log, g.store.performAll es = (log, (es.foldl attempt g).store) ∧
      log.map Prod.fst = es ∧
      g.store.performAll ((acceptedPart log).map Prod.fst) =
        (acceptedPart log, (es.foldl attempt g).store) ∧
      ((acceptedPart log).map Prod.fst).foldl attempt g = es.foldl attempt g := by
  have hok : ∀ e g', g.edit e = .ok g' → perform e g.store = .ok () g'.store := by
    intro e g' he
    rw [perform_store, he]
  refine ⟨fun e err he => ?_, fun e g' he => ⟨hok e g' he, effect_of_perform (hok e g' he)⟩,
    fun es => ⟨(g.store.performAll es).1, ?_, map_fst_performAll _ _, ?_, ?_⟩⟩
  · rw [perform_store, he]
  · rw [← performAll_store]
  · rw [performAll_accepted, performAll_store]
  · refine store_injective ?_
    rw [← performAll_store, performAll_accepted, performAll_store]

/-- A rule for `X` that is refused for its body makes no set of rules for `X`, so the pair `XX` is
refused after it, and both can be left out. -/
theorem refused_rule_makes_no_pair :
    let g := brackets.attempt (.declareNonterminal 'X')
    let es := [Edit.addRule 'X' "Sl", .addRule 'S' "XX", .addRule 'X' "l", .addRule 'S' "XX"]
    g.edit (.addRule 'X' "Sl") = .error .malformedBody ∧
      perform (.addRule 'X' "Sl") g.store = .error .malformedBody g.store ∧
      ∃ log, g.store.performAll es = (log, (es.foldl attempt g).store) ∧
        ((acceptedPart log).map Prod.fst).foldl attempt g = es.foldl attempt g ∧
        es.foldl attempt g = (es.drop 2).foldl attempt g := by
  intro g es
  have hedit : g.edit (.addRule 'X' "Sl") = .error .malformedBody := by decide +kernel
  have hsame : es.foldl attempt g = (es.drop 2).foldl attempt g := by decide +kernel
  obtain ⟨hrefused, -, hall⟩ := refused_edits_leave_no_trace g
  obtain ⟨log, hlog, -, -, haccepted⟩ := hall es
  exact ⟨hedit, hrefused _ _ hedit, log, hlog, haccepted, hsame⟩

end Grammar

end ChomskyGrammar
