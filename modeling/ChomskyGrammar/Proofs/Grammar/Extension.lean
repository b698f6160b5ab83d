/-
# What later edits leave in place

An edit adds something to a grammar, chooses its start symbol or resets it.  So edits that do not
reset a grammar lose nothing of it (`isPartOf_foldl_attempt`), whether they are accepted or refused,
and however many of them there are.  Edits that only add something keep the start symbol as well
(`start_foldl_attempt`), and those that only declare symbols keep the rules (`rules_foldl_attempt`).
-/
import ChomskyGrammar.Proofs.Grammar.Reachable

namespace ChomskyGrammar

namespace Edit

/-- Whether an edit adds a symbol or a rule to what is there. -/
def grows : Edit → Bool
  | declareNonterminal _ | declareTerminal _ | addRule _ _ => true
  | setStart _ | reset => false

/-- Whether an edit adds a symbol. -/
def declares : Edit → Bool
  | declareNonterminal _ | declareTerminal _ => true
  | addRule _ _ | setStart _ | reset => false

lemma grows_of_declares {e : Edit} (h : e.declares = true) : e.grows = true := by
  cases e <;> simp_all [grows, declares]

lemma ne_reset_of_grows {e : Edit} (h : e.grows = true) : e ≠ reset := by
  rintro rfl
  exact absurd h (by simp [grows])

end Edit

namespace Grammar

variable {g g' g'' : Grammar} {es : List Edit} {e : Edit}

/-! ### Nothing is lost -/

/-- Whether all symbols and rules of a grammar are those of another one, too. -/
structure IsPartOf (g g' : Grammar) : Prop where
  mem_nonterminals : ∀ a ∈ g.nonterminals, a ∈ g'.nonterminals
  mem_terminals : ∀ t ∈ g.terminals, t ∈ g'.terminals
  mem_rules : ∀ r ∈ g.rules, r ∈ g'.rules

lemma IsPartOf.refl (g : Grammar) : g.IsPartOf g := ⟨fun _ => id, fun _ => id, fun _ => id⟩

lemma IsPartOf.trans (h : g.IsPartOf g') (h' : g'.IsPartOf g'') : g.IsPartOf g'' where
  mem_nonterminals a ha := h'.mem_nonterminals a (h.mem_nonterminals a ha)
  mem_terminals t ht := h'.mem_terminals t (h.mem_terminals t ht)
  mem_rules r hr := h'.mem_rules r (h.mem_rules r hr)

lemma IsPartOf.mem_heads (h : g.IsPartOf g') {a : Nonterminal} (ha : a ∈ g.heads) :
    a ∈ g'.heads := by
  obtain ⟨b, hb⟩ := Grammar.mem_heads.1 ha
  exact Grammar.mem_heads.2 ⟨b, h.mem_rules _ hb⟩

/-- An accepted edit that is no reset takes nothing away. -/
lemma isPartOf_of_edit (he : e ≠ .reset) (h : g.edit e = .ok g') : g.IsPartOf g' := by
  have hself := IsPartOf.refl g
  rcases edit_cases h with ⟨a, -, -, rfl⟩ | ⟨t, -, -, rfl⟩ | ⟨a, -, -, rfl⟩ | ⟨r, -, -, -, rfl⟩ |
    ⟨hreset, -⟩
  · exact { hself with mem_nonterminals := fun b hb => SortedSet.mem_insert.2 (.inr hb) }
  · exact { hself with mem_terminals := fun u hu => SortedSet.mem_insert.2 (.inr hu) }
  · exact ⟨fun _ => id, fun _ => id, fun _ => id⟩
  · exact { hself with mem_rules := fun q hq => SortedSet.mem_insert.2 (.inr hq) }
  · exact absurd hreset he

/-- **Edits that do not reset a grammar lose nothing of it.** -/
theorem isPartOf_foldl_attempt (hes : .reset ∉ es) : g.IsPartOf (es.foldl attempt g) := by
  refine foldl_attempt_induct (IsPartOf.refl g) fun g₁ e g₂ h₁ he hok => h₁.trans ?_
  exact isPartOf_of_edit (fun h => hes (h ▸ he)) hok

/-! ### What is not touched -/

lemma start_of_grows (he : e.grows = true) (h : g.edit e = .ok g') : g'.start = g.start := by
  rcases edit_cases h with ⟨a, -, -, rfl⟩ | ⟨t, -, -, rfl⟩ | ⟨a, rfl, -, -⟩ | ⟨r, -, -, -, rfl⟩ |
    ⟨rfl, -⟩
  · rfl
  · rfl
  · exact absurd he (by simp [Edit.grows])
  · rfl
  · exact absurd he (by simp [Edit.grows])

/-- Edits that only add something keep the start symbol. -/
theorem start_foldl_attempt (hes : ∀ e ∈ es, e.grows = true) :
    (es.foldl attempt g).start = g.start :=
  foldl_attempt_induct (P := fun g' => g'.start = g.start) rfl fun _ e _ h₁ he hok =>
    (start_of_grows (hes e he) hok).trans h₁

lemma rules_of_declares (he : e.declares = true) (h : g.edit e = .ok g') : g'.rules = g.rules := by
  rcases edit_cases h with ⟨a, -, -, rfl⟩ | ⟨t, -, -, rfl⟩ | ⟨a, rfl, -, -⟩ | ⟨r, rfl, -, -, -⟩ |
    ⟨rfl, -⟩
  · rfl
  · rfl
  · exact absurd he (by simp [Edit.declares])
  · exact absurd he (by simp [Edit.declares])
  · exact absurd he (by simp [Edit.declares])

/-- Edits that only declare symbols keep the rules. -/
theorem rules_foldl_attempt (hes : ∀ e ∈ es, e.declares = true) :
    (es.foldl attempt g).rules = g.rules :=
  foldl_attempt_induct (P := fun g' => g'.rules = g.rules) rfl fun _ e _ h₁ he hok =>
    (rules_of_declares (hes e he) hok).trans h₁

end Grammar

end ChomskyGrammar
