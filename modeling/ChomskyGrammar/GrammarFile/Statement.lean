/-
# Statements

Every line of a grammar file that holds a token is a statement:

* `nonterminals = A B …` and `terminals = a b …` declare symbols,
* `start = A` chooses the start symbol,
* `A = BC | a | …` gives rules for the nonterminal `A`.

A statement asks for edits of the grammar, in the order in which it is written.
-/
import ChomskyGrammar.Grammar.Edit
import ChomskyGrammar.GrammarFile.Fault
import ChomskyGrammar.GrammarFile.Token
import ChomskyGrammar.Text.Pieces

namespace ChomskyGrammar

/-- What one line of a grammar file asks for. -/
inductive Statement where
  | nonterminals (symbols : List Char)
  | terminals (symbols : List Char)
  /-- Choose the start symbol; more or fewer symbols than one are refused later. -/
  | start (symbols : List Char)
  /-- Add a rule for every body. -/
  | rules (head : Char) (bodies : List String)
deriving DecidableEq, Repr

namespace Statement

/-- The character of a word that has only one. -/
def single? (word : String) : Option Char :=
  match word.toList with
  | [c] => some c
  | _ => none

/-- The symbol that a token of a declaration stands for. -/
def readSymbol : Token → Except Fault Char
  | .equals => .error .unexpectedEquals
  | .bar => .error .unexpectedBar
  | .word w =>
    match single? w with
    | some c => .ok c
    | none => .error (.symbolTooLong w)

/-- The symbols of a declaration, or the first fault among them. -/
def readSymbols (ts : List Token) : Except Fault (List Char) := ts.mapM readSymbol

/-- The words among some tokens. -/
def words (ts : List Token) : List String :=
  ts.filterMap fun t =>
    match t with
    | .word w => some w
    | _ => none

/-- The body that one alternative of a rule stands for: its only word. -/
def readBody : List Token → Except Fault String
  | [] => .error .emptyAlternative
  | [.word w] => .ok w
  | ts =>
    -- A second `=` is the likelier mistake, so it is named even among several words.
    if .equals ∈ ts then .error .unexpectedEquals
    else .error (.splitBody (" ".intercalate (words ts)))

/-- The bodies of the alternatives of a rule, or the first fault among them. -/
def readBodies (ts : List Token) : Except Fault (List String) :=
  (pieces .bar ts).mapM readBody

/-- The statement with a given first word and given tokens after its `=`.  Three words
are keywords; any other has to be a single character, the head of rules whose bodies are
separated by `|`. -/
def ofParts (first : String) (rest : List Token) : Except Fault Statement :=
  if first = "nonterminals" then (readSymbols rest).map nonterminals
  else if first = "terminals" then (readSymbols rest).map terminals
  else if first = "start" then (readSymbols rest).map start
  else
    match single? first with
    | none => .error (.unknownDirective first)
    | some c => (readBodies rest).map (rules c)

/-- The statement that the tokens of a line stand for. -/
def ofTokens : List Token → Except Fault Statement
  | [] => .error .unexpectedBlankLine
  | .word first :: .equals :: rest => ofParts first rest
  | .word first :: _ => .error (.missingEquals first)
  | _ :: _ => .error .missingHead

/-- The edits that a statement asks for, from left to right. -/
def edits : Statement → List Edit
  | nonterminals symbols => symbols.map .declareNonterminal
  | terminals symbols => symbols.map .declareTerminal
  | start symbols => symbols.map .setStart
  | rules head bodies => bodies.map (.addRule head)

end Statement

end ChomskyGrammar
