/-
# What can be wrong with a grammar or a query

One type names every reason for which a change to a grammar or a question about a word is
refused.  The reasons about a symbol carry the character that was given.
-/

namespace ChomskyGrammar

/-- Why a change to a grammar or a question about a word was refused. -/
inductive GrammarError where
  | notUppercase (c : Char)
  | nonterminalRedeclared (c : Char)
  | notLowercase (c : Char)
  | terminalRedeclared (c : Char)
  | undeclaredStart (c : Char)
  | undeclaredHead (c : Char)
  /-- A body is neither one lowercase letter nor two uppercase ones. -/
  | malformedBody
  /-- A body uses an undeclared terminal, or a nonterminal without rules. -/
  | undefinedInBody (c : Char)
  | nonterminalInWord (c : Char)
  /-- A queried word holds some other character that is not a declared terminal. -/
  | undeclaredInWord (c : Char)
  | noStart
  | noRules
deriving DecidableEq, Repr

namespace GrammarError

/-- The text that tells a user what is wrong. -/
def message : GrammarError → String
  | notUppercase c => s!"`{c}` is not an uppercase letter and cannot be a nonterminal"
  | nonterminalRedeclared c => s!"`{c}` is already declared as a nonterminal"
  | notLowercase c => s!"`{c}` is not a lowercase letter and cannot be a terminal"
  | terminalRedeclared c => s!"`{c}` is already declared as a terminal"
  | undeclaredStart c =>
    s!"`{c}` cannot be the start symbol because it is not a declared nonterminal"
  | undeclaredHead c => s!"`{c}` has a production but is not a declared nonterminal"
  | malformedBody => "Production body is not in Chomsky Normal Form"
  | undefinedInBody c =>
    s!"Production body uses `{c}`, which is undeclared or has no productions yet"
  | nonterminalInWord c => s!"Word contains the nonterminal `{c}`"
  | undeclaredInWord c => s!"Word contains `{c}`, which is not a terminal of this grammar"
  | noStart => "Grammar has no start symbol"
  | noRules => "Grammar has no productions"

end GrammarError

end ChomskyGrammar
