/-
# Grammars

A grammar is two alphabets, an optional start symbol and a set of rules, all of them in
ascending order.  Two grammars with the same symbols, start and rules are equal, whatever
the order in which they were built up.
-/
import ChomskyGrammar.Rule

namespace ChomskyGrammar

/-- A grammar in Chomsky normal form. -/
structure Grammar where
  nonterminals : SortedSet Nonterminal
  terminals : SortedSet Terminal
  /-- The nonterminal that words are derived from, once it is chosen. -/
  start : Option Nonterminal
  rules : SortedSet Rule
deriving DecidableEq

namespace Grammar

/-- The grammar that declares nothing. -/
def empty : Grammar := ⟨.empty, .empty, none, .empty⟩

instance : Inhabited Grammar := ⟨empty⟩

/-- The nonterminals that have rules. -/
def heads (g : Grammar) : SortedSet Nonterminal :=
  SortedSet.ofList (g.rules.toList.map fun r => r.head)

/-- The bodies of the rules of one nonterminal. -/
def bodies (g : Grammar) (a : Nonterminal) : SortedSet Body :=
  SortedSet.ofList ((g.rules.toList.filter fun r => decide (r.head = a)).map fun r => r.body)

/-- The number of rules. -/
def ruleCount (g : Grammar) : Nat := g.rules.size

/-- Whether there is nothing to derive from: no nonterminal, or no rule. -/
def isEmpty (g : Grammar) : Bool := g.nonterminals.isEmpty || g.rules.isEmpty

theorem mem_heads {g : Grammar} {a : Nonterminal} :
    a ∈ g.heads ↔ ∃ b, (⟨a, b⟩ : Rule) ∈ g.rules := by
  simp only [heads, SortedSet.mem_ofList, List.mem_map]
  constructor
  · rintro ⟨⟨a', b⟩, h, rfl⟩
    exact ⟨b, h⟩
  · rintro ⟨b, h⟩
    exact ⟨⟨a, b⟩, h, rfl⟩

theorem mem_bodies {g : Grammar} {a : Nonterminal} {b : Body} :
    b ∈ g.bodies a ↔ (⟨a, b⟩ : Rule) ∈ g.rules := by
  simp only [bodies, SortedSet.mem_ofList, List.mem_map, List.mem_filter,
    decide_eq_true_eq]
  constructor
  · rintro ⟨⟨a', b'⟩, ⟨h, rfl⟩, rfl⟩
    exact h
  · intro h
    exact ⟨⟨a, b⟩, ⟨h, rfl⟩, rfl⟩

end Grammar

end ChomskyGrammar
