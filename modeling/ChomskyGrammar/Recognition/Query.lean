/-
# Questions about a word

A query first reads its word: every character has to be a declared terminal, and the
first one that is not decides the refusal.  Then the grammar needs a start symbol, and
after that a rule.  Only then is the chart of the word filled in; the start symbol
derives the word if it is in the cell of the whole word.
-/
import ChomskyGrammar.Grammar.Basic
import ChomskyGrammar.Grammar.Error
import ChomskyGrammar.Recognition.ChartText

namespace ChomskyGrammar

namespace Grammar

/-- The terminal that a character of a word denotes, if it is declared. -/
def readLetter (g : Grammar) (c : Char) : Except GrammarError Terminal :=
  match Symbol.classify c with
  | some (.nonterminal _) => .error (.nonterminalInWord c)
  | some (.terminal t) => if t ∈ g.terminals then .ok t else .error (.undeclaredInWord c)
  | none => .error (.undeclaredInWord c)

/-- The terminals of a word, or the refusal of its first bad character. -/
def readWord (g : Grammar) (cs : List Char) : Except GrammarError (List Terminal) :=
  cs.mapM g.readLetter

/-- The start symbol of a grammar that can be asked about words. -/
def queryStart (g : Grammar) : Except GrammarError Nonterminal :=
  match g.start with
  | none => .error .noStart
  | some a => if g.isEmpty then .error .noRules else .ok a

/-- The start symbol and the chart of a word. -/
def startAndChart (g : Grammar) (word : String) : Except GrammarError (Nonterminal × Chart) :=
  match g.readWord word.toList with
  | .error e => .error e
  | .ok ts =>
    match g.queryStart with
    | .error e => .error e
    | .ok a => .ok (a, Chart.ofWord g.rules.toList ts)

/-- The chart of a word. -/
def chart (g : Grammar) (word : String) : Except GrammarError Chart :=
  (g.startAndChart word).map fun p => p.2

/-- Whether the start symbol derives a word, and the chart of the word. -/
def membership (g : Grammar) (word : String) : Except GrammarError (Bool × Chart) :=
  (g.startAndChart word).map fun p => (p.2.derives p.1, p.2)

/-- Whether the start symbol derives a word. -/
def derives (g : Grammar) (word : String) : Except GrammarError Bool :=
  (g.membership word).map fun p => p.1

/-- The text of the chart of a word. -/
def chartText (g : Grammar) (word : String) : Except GrammarError String :=
  (g.chart word).map fun t => t.text

end Grammar

end ChomskyGrammar
