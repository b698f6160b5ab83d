/-
# Writing a grammar down

The rules of one nonterminal are written on one line, `A::=BC|a`, and a grammar as one
such line per nonterminal with rules.  Symbols and bodies appear in ascending order.
-/
import ChomskyGrammar.Grammar.Basic

namespace ChomskyGrammar

namespace Grammar

/-- The line of one nonterminal and its bodies; nothing if there are no bodies. -/
def ruleLineChars (a : Nonterminal) : List Body → List Char
  | [] => []
  | bs => a.char :: ':' :: ':' :: '=' :: ['|'].intercalate (bs.map Body.chars)

/-- The characters of the whole grammar, one line per nonterminal with rules. -/
def dumpChars (g : Grammar) : List Char :=
  ['\n'].intercalate (g.heads.toList.map fun a => ruleLineChars a (g.bodies a).toList)

/-- The rules of the nonterminal that a character denotes, as `A::=BC|a`.  The text is
empty if the character denotes none, or if it has no rules. -/
def ruleLine (g : Grammar) (c : Char) : String :=
  match Nonterminal.ofChar? c with
  | none => ""
  | some a => String.ofList (ruleLineChars a (g.bodies a).toList)

/-- The rules of the grammar, one line per nonterminal that has some. -/
def dump (g : Grammar) : String := String.ofList g.dumpChars

/-- The declared nonterminals, as they are written. -/
def nonterminalChars (g : Grammar) : List Char := g.nonterminals.toList.map fun a => a.char

/-- The declared terminals, as they are written. -/
def terminalChars (g : Grammar) : List Char := g.terminals.toList.map fun t => t.char

end Grammar

end ChomskyGrammar
