/-
# Faults of a grammar file

Everything that can be wrong with a grammar file, from a line that cannot be read to an
edit that the grammar refuses.  Faults are compared by what they say (`Fault.same`), with
one exception: two problems of reading a file are the same if they are of the same kind,
whatever their texts.
-/
import ChomskyGrammar.Grammar.Error
import ChomskyGrammar.GrammarFile.ReadProblem

namespace ChomskyGrammar

/-- What is wrong with a grammar file. -/
inductive Fault where
  /-- The first word of a line is not followed by `=`. -/
  | missingEquals (first : String)
  /-- A `=` stands where none may be. -/
  | unexpectedEquals
  /-- A `|` stands where none may be. -/
  | unexpectedBar
  /-- A line does not start with a word. -/
  | missingHead
  /-- The first word of a line is neither a keyword nor a single character. -/
  | unknownDirective (word : String)
  /-- A word of several characters stands where a symbol is needed. -/
  | symbolTooLong (word : String)
  /-- A declaration of nonterminals or terminals is empty. -/
  | emptyDeclaration
  /-- The first choice of the start symbol does not name exactly one. -/
  | startArity (count : Nat)
  /-- A rule has an alternative without words. -/
  | emptyAlternative
  /-- A rule has an alternative of several words, given here with spaces between them. -/
  | splitBody (words : String)
  /-- The start symbol is chosen a second time. -/
  | duplicateStart
  /-- A line without tokens was to be read as a statement. -/
  | unexpectedBlankLine
  /-- The grammar refuses an edit. -/
  | grammar (error : GrammarError)
  /-- The file, or a line of it, cannot be read. -/
  | unreadable (problem : ReadProblem)
deriving DecidableEq, Repr

namespace Fault

/-- The text that tells a user what is wrong. -/
def message : Fault → String
  | missingEquals first => s!"Expected `=` after `{first}`"
  | unexpectedEquals => "Unexpected `=` encountered"
  | unexpectedBar => "Unexpected `|` encountered"
  | missingHead => "Expected a nonterminal or a declaration at the start of the line"
  | unknownDirective word => s!"`{word}` is neither a declaration nor a single nonterminal"
  | symbolTooLong word => s!"`{word}` is not a single symbol"
  | emptyDeclaration => "Declaration lists no symbols"
  | startArity count => s!"Expected exactly one start symbol, found {count}"
  | emptyAlternative => "Empty production body"
  | splitBody words => s!"Production body `{words}` is split by whitespace"
  | duplicateStart => "Start symbol is declared more than once"
  | unexpectedBlankLine =>
    "Blank line encountered in line parser (this is a problem with the loader, not the grammar)"
  | grammar error => error.message
  | unreadable problem => "File error: " ++ problem.text

/-- Whether two faults say the same.  Where a fault of the same sort has a text, a number or a
refusal, this is compared, and problems of reading are compared by their kind.  Otherwise it is
enough that the faults are of the same sort. -/
def same : Fault → Fault → Bool
  | unreadable p, unreadable q => decide (p.kind = q.kind)
  | grammar e, grammar e' => decide (e = e')
  | missingEquals s, missingEquals t
  | unknownDirective s, unknownDirective t
  | symbolTooLong s, symbolTooLong t
  | splitBody s, splitBody t => decide (s = t)
  | startArity m, startArity n => decide (m = n)
  | f, g => decide (f.ctorIdx = g.ctorIdx)

end Fault

end ChomskyGrammar
