/-
# Rules under their bodies

A chart asks over and over which rules have a given body.  An index answers this without
going through the rules again: it keeps the heads of the rules in lists, one for each
terminal and one for each pair of nonterminals, and is built up rule by rule.
-/
import ChomskyGrammar.Rule

namespace ChomskyGrammar

/-- The heads of rules, in lists under the bodies of the rules. -/
structure RuleIndex where
  /-- The heads of the rules whose body is a given terminal. -/
  unitHeads : Terminal → List Nonterminal
  /-- The heads of the rules whose body is a given pair. -/
  pairHeads : Nonterminal → Nonterminal → List Nonterminal

namespace RuleIndex

/-- The index of no rules. -/
def empty : RuleIndex := ⟨fun _ => [], fun _ _ => []⟩

/-- Adds the head of a rule at the end of the list under its body. -/
def add (ix : RuleIndex) (r : Rule) : RuleIndex :=
  match r.body with
  | .unit t =>
    { ix with
      unitHeads := fun t' => if t' = t then ix.unitHeads t ++ [r.head] else ix.unitHeads t' }
  | .binary b c =>
    { ix with
      pairHeads := fun b' c' =>
        if b' = b ∧ c' = c then ix.pairHeads b c ++ [r.head] else ix.pairHeads b' c' }

/-- The index of some rules. -/
def ofRules (rules : List Rule) : RuleIndex := rules.foldl add empty

variable {ix : RuleIndex} {r : Rule} {rules : List Rule} {a : Nonterminal}

theorem mem_unitHeads_add {t : Terminal} :
    a ∈ (ix.add r).unitHeads t ↔ a ∈ ix.unitHeads t ∨ r = ⟨a, .unit t⟩ := by
  obtain ⟨head, body⟩ := r
  cases body with
  | binary b c => simp [add]
  | unit t' =>
    by_cases ht : t = t'
    · simp [add, ht, eq_comm]
    · simp [add, ht, Ne.symm ht]

theorem mem_pairHeads_add {b c : Nonterminal} :
    a ∈ (ix.add r).pairHeads b c ↔ a ∈ ix.pairHeads b c ∨ r = ⟨a, .binary b c⟩ := by
  obtain ⟨head, body⟩ := r
  cases body with
  | unit t => simp [add]
  | binary b' c' =>
    by_cases hbc : b = b' ∧ c = c'
    · simp [add, hbc, eq_comm]
    · have hne : ¬ (b' = b ∧ c' = c) := fun h => hbc ⟨h.1.symm, h.2.symm⟩
      simp [add, hbc, hne]

theorem mem_unitHeads_foldl {t : Terminal} :
    a ∈ (rules.foldl add ix).unitHeads t ↔ a ∈ ix.unitHeads t ∨ (⟨a, .unit t⟩ : Rule) ∈ rules := by
  induction rules generalizing ix with
  | nil => simp
  | cons r rules ih => rw [List.foldl_cons, ih, mem_unitHeads_add, List.mem_cons, or_assoc, eq_comm]

theorem mem_pairHeads_foldl {b c : Nonterminal} :
    a ∈ (rules.foldl add ix).pairHeads b c ↔
      a ∈ ix.pairHeads b c ∨ (⟨a, .binary b c⟩ : Rule) ∈ rules := by
  induction rules generalizing ix with
  | nil => simp
  | cons r rules ih => rw [List.foldl_cons, ih, mem_pairHeads_add, List.mem_cons, or_assoc, eq_comm]

/-- No rule is lost: under a terminal are the heads of its unit rules. -/
theorem mem_unitHeads {t : Terminal} :
    a ∈ (ofRules rules).unitHeads t ↔ (⟨a, .unit t⟩ : Rule) ∈ rules := by
  rw [ofRules, mem_unitHeads_foldl]
  simp [empty]

/-- Under a pair are the heads of its binary rules. -/
theorem mem_pairHeads {b c : Nonterminal} :
    a ∈ (ofRules rules).pairHeads b c ↔ (⟨a, .binary b c⟩ : Rule) ∈ rules := by
  rw [ofRules, mem_pairHeads_foldl]
  simp [empty]

end RuleIndex

end ChomskyGrammar
