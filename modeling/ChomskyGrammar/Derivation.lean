/-
# Derivation trees

A derivation tree records how a nonterminal is expanded to a word: at each node a rule
is applied, and the word is read off the leaves from left to right.  A word always has a
letter, because there are no rules with an empty body.
-/
import ChomskyGrammar.Rule

namespace ChomskyGrammar

/-- A record of the rules that expand a nonterminal to a word. -/
inductive DerivationTree where
  /-- The nonterminal becomes a terminal. -/
  | unit (a : Nonterminal) (t : Terminal)
  /-- The nonterminal becomes the roots of two trees. -/
  | binary (a : Nonterminal) (left right : DerivationTree)
deriving DecidableEq

namespace DerivationTree

/-- The nonterminal that is expanded. -/
def root : DerivationTree → Nonterminal
  | unit a _ => a
  | binary a _ _ => a

/-- The word that is derived. -/
def word : DerivationTree → List Terminal
  | unit _ t => [t]
  | binary _ left right => left.word ++ right.word

/-- The body that the root is expanded to. -/
def body : DerivationTree → Body
  | unit _ t => .unit t
  | binary _ left right => .binary left.root right.root

/-- Whether every rule that is applied is one of the given rules. -/
def Follows (rules : List Rule) : DerivationTree → Prop
  | unit a t => ⟨a, .unit t⟩ ∈ rules
  | binary a left right =>
    ⟨a, .binary left.root right.root⟩ ∈ rules ∧ left.Follows rules ∧ right.Follows rules

/-- The number of nodes, which is the number of rules applied. -/
def nodeCount : DerivationTree → Nat
  | unit _ _ => 1
  | binary _ left right => left.nodeCount + right.nodeCount + 1

theorem word_ne_nil (d : DerivationTree) : d.word ≠ [] := by
  cases d with
  | unit a t => exact List.cons_ne_nil t []
  | binary a left right => exact List.append_ne_nil_of_left_ne_nil (word_ne_nil left) right.word

/-- A word of `n` letters takes `2 * n - 1` rules. -/
theorem nodeCount_add_one (d : DerivationTree) : d.nodeCount + 1 = 2 * d.word.length := by
  induction d with
  | unit a t => rfl
  | binary a left right ihl ihr =>
    simp only [nodeCount, word, List.length_append]
    omega

end DerivationTree

end ChomskyGrammar
