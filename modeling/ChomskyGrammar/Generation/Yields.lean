/-
# Yields

The yield of a nonterminal is the length of the shortest word that it derives.  While
yields are being found, some are known and others are not yet; a `Yields` holds what is
known so far.  The length of a body is known if the yields of its nonterminals are.
-/
import ChomskyGrammar.Rule

namespace ChomskyGrammar

/-- Known lengths of words that nonterminals derive. -/
structure Yields where
  /-- The nonterminals with a known length, each once. -/
  entries : List (Nonterminal × Nat)
deriving DecidableEq

namespace Yields

/-- Nothing is known. -/
def empty : Yields := ⟨[]⟩

/-- The known length of a nonterminal. -/
def get? (y : Yields) (a : Nonterminal) : Option Nat := y.entries.lookup a

/-- Makes a length known, in place of any earlier one. -/
def insert (y : Yields) (a : Nonterminal) (n : Nat) : Yields :=
  ⟨(a, n) :: y.entries.filter fun e => decide (e.1 ≠ a)⟩

@[simp] theorem get?_empty (a : Nonterminal) : empty.get? a = none := rfl

theorem lookup_filter_ne {a b : Nonterminal} (h : b ≠ a) (l : List (Nonterminal × Nat)) :
    (l.filter fun e => decide (e.1 ≠ a)).lookup b = l.lookup b := by
  induction l with
  | nil => rfl
  | cons e es ih =>
    obtain ⟨c, n⟩ := e
    by_cases hca : c = a
    · have hbc : (b == c) = false := by
        rw [hca]
        exact beq_false_of_ne h
      rw [List.filter_cons_of_neg (by simp [hca]), ih, List.lookup_cons, hbc]
    · rw [List.filter_cons_of_pos (by simp [hca]), List.lookup_cons, List.lookup_cons, ih]

theorem get?_insert (y : Yields) (a b : Nonterminal) (n : Nat) :
    (y.insert a n).get? b = if b = a then some n else y.get? b := by
  unfold get? insert
  rw [List.lookup_cons]
  split
  · rename_i h
    have hba : b = a := by simpa using h
    rw [if_pos hba]
  · rename_i h
    have hba : b ≠ a := by simpa using h
    rw [if_neg hba, lookup_filter_ne hba]

/-- The length of the shortest words that a body is known to derive. -/
def bodyLength? (y : Yields) : Body → Option Nat
  | .unit _ => some 1
  | .binary b c =>
    match y.get? b, y.get? c with
    | some m, some n => some (m + n)
    | _, _ => none

theorem bodyLength?_binary {y : Yields} {b c : Nonterminal} {k : Nat} :
    y.bodyLength? (.binary b c) = some k ↔
      ∃ m n, y.get? b = some m ∧ y.get? c = some n ∧ m + n = k := by
  cases hb : y.get? b <;> cases hc : y.get? c <;> simp [bodyLength?, hb, hc]

end Yields

end ChomskyGrammar
