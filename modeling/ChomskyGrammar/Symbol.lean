/-
# Symbols

A grammar derives words of terminals, which are single lowercase letters, from
nonterminals, which are single uppercase letters.  Both types carry the proof that their
character is of the right class, so a symbol can only be made by a check of its class.  As
no letter is of both classes, a character is at most one of the two.
-/
import ChomskyGrammar.Alphabet.Disjoint
import ChomskyGrammar.Grammar.Error
import ChomskyGrammar.SortedSet

namespace ChomskyGrammar

/-- A symbol that words are made of: a lowercase letter. -/
structure Terminal where
  char : Char
  lowercase : isLowercase char = true
deriving DecidableEq

/-- A symbol that rules expand: an uppercase letter. -/
structure Nonterminal where
  char : Char
  uppercase : isUppercase char = true
deriving DecidableEq

/-- Symbols of a kind are ordered by code point. -/
instance : Ranked Terminal where
  rank t := t.char.toNat
  rank_injective := by
    rintro ⟨a, ha⟩ ⟨b, hb⟩ h
    have hab : a = b := Char.toNat_inj.1 h
    subst hab
    rfl

instance : Ranked Nonterminal where
  rank a := a.char.toNat
  rank_injective := by
    rintro ⟨a, ha⟩ ⟨b, hb⟩ h
    have hab : a = b := Char.toNat_inj.1 h
    subst hab
    rfl

namespace Terminal

/-- The terminal that a character denotes, if it is a lowercase letter. -/
def ofChar? (c : Char) : Option Terminal :=
  if h : isLowercase c = true then some ⟨c, h⟩ else none

theorem ofChar?_eq_some_iff {c : Char} {t : Terminal} : ofChar? c = some t ↔ t.char = c := by
  obtain ⟨d, hd⟩ := t
  unfold ofChar?
  split
  · rename_i h
    simp only [Option.some.injEq, Terminal.mk.injEq]
    exact eq_comm
  · rename_i h
    simp only [reduceCtorEq, false_iff]
    rintro rfl
    exact h hd

theorem ofChar?_eq_none_iff {c : Char} : ofChar? c = none ↔ isLowercase c = false := by
  rw [ofChar?]
  split <;> simp_all

/-- The terminal that a character denotes, or the reason why it denotes none. -/
def read (c : Char) : Except GrammarError Terminal :=
  (ofChar? c).elim (.error (.notLowercase c)) .ok

end Terminal

namespace Nonterminal

/-- The nonterminal that a character denotes, if it is an uppercase letter. -/
def ofChar? (c : Char) : Option Nonterminal :=
  if h : isUppercase c = true then some ⟨c, h⟩ else none

theorem ofChar?_eq_some_iff {c : Char} {a : Nonterminal} : ofChar? c = some a ↔ a.char = c := by
  obtain ⟨d, hd⟩ := a
  rw [ofChar?]
  split
  · rename_i h
    simp only [Option.some.injEq, Nonterminal.mk.injEq]
    exact eq_comm
  · rename_i h
    simp only [reduceCtorEq, false_iff]
    rintro rfl
    exact h hd

theorem ofChar?_eq_none_iff {c : Char} : ofChar? c = none ↔ isUppercase c = false := by
  rw [ofChar?]
  split <;> simp_all

/-- The nonterminal that a character denotes, or the reason why it denotes none. -/
def read (c : Char) : Except GrammarError Nonterminal :=
  (ofChar? c).elim (.error (.notUppercase c)) .ok

end Nonterminal

/-- A symbol of either kind. -/
inductive Symbol where
  | terminal (t : Terminal)
  | nonterminal (a : Nonterminal)
deriving DecidableEq

namespace Symbol

/-- The character that the symbol is written as. -/
def char : Symbol → Char
  | terminal t => t.char
  | nonterminal a => a.char

/-- The symbol that a character denotes, if it is a letter of either case.  No letter is
of both cases, so the order of the two tests does not matter. -/
def classify (c : Char) : Option Symbol :=
  match Terminal.ofChar? c with
  | some t => some (terminal t)
  | none => (Nonterminal.ofChar? c).map nonterminal

theorem classify_terminal (t : Terminal) : classify t.char = some (terminal t) := by
  simp [classify, Terminal.ofChar?_eq_some_iff.2 rfl]

theorem classify_nonterminal (a : Nonterminal) :
    classify a.char = some (nonterminal a) := by
  have h : Terminal.ofChar? a.char = none :=
    Terminal.ofChar?_eq_none_iff.2 (isLowercase_eq_false_of_isUppercase a.uppercase)
  simp [classify, h, Nonterminal.ofChar?_eq_some_iff.2 rfl]

end Symbol

end ChomskyGrammar
