/-
# Loading a grammar file

A file is loaded in three stages, and each stage is entered only if the one before found
no fault; so the faults of one load are all of one stage.

1. Every line is read as a statement; blank lines and comments are left out.
2. The statements are checked against each other (`Line.fault?`): no declaration is empty,
   the start symbol is chosen once, and exactly one symbol is chosen.
3. The edits that the statements ask for are applied in the order of the file, starting
   from the empty grammar.  A refused edit is noted and skipped.

The grammar is the result if the last stage notes nothing either.

The first stage needs all lines.  If the reading of the file has no end, then the load has none
(`loadFile?`).
-/
import ChomskyGrammar.Grammar.Dump
import ChomskyGrammar.GrammarFile.FileReading
import ChomskyGrammar.GrammarFile.Location
import ChomskyGrammar.GrammarFile.Statement
import ChomskyGrammar.Log

namespace ChomskyGrammar

/-- A statement and the number of its line. -/
structure Line where
  /-- The number of the line, starting from 1. -/
  number : Nat
  statement : Statement
deriving DecidableEq, Repr

/-- What a load yields: the grammar or the faults of the file, and the records that were
logged on the way. -/
structure Load where
  log : List LogRecord
  /-- The grammar, or all faults of the stage that failed. -/
  result : Except (List LocatedFault) Grammar

namespace GrammarFile

/-- The name under which the loader writes log records. -/
def logTarget : String := "cyk::parser"

/-! ### The lines as statements -/

/-- The statement of one line, `none` if the line has no tokens.  A line that cannot be
read is a fault of the file as a whole. -/
def readLine (file : String) (number : Nat) : RawLine → Except LocatedFault (Option Line)
  | .error problem => .error ⟨⟨file, 0⟩, .unreadable problem⟩
  | .ok cs =>
    match Token.ofChars cs with
    | [] => .ok none
    | t :: ts =>
      match Statement.ofTokens (t :: ts) with
      | .error fault => .error ⟨⟨file, number⟩, fault⟩
      | .ok statement => .ok (some ⟨number, statement⟩)

/-- The statements of some lines, numbered from a given number on, and the faults of the
lines that are none. -/
def readLines (file : String) : Nat → List RawLine → List LocatedFault × List Line
  | _, [] => ([], [])
  | number, l :: ls =>
    let (faults, lines) := readLines file (number + 1) ls
    match readLine file number l with
    | .error fault => (fault :: faults, lines)
    | .ok none => (faults, lines)
    | .ok (some line) => (faults, line :: lines)

/-! ### The statements together -/

/-- Whether a statement chooses the start symbol. -/
def choosesStart : Statement → Bool
  | .start _ => true
  | _ => false

/-- What is wrong with a statement among the others, given whether an earlier one chooses
the start symbol already. -/
def statementFault? (chosen : Bool) : Statement → Option Fault
  | .nonterminals [] => some .emptyDeclaration
  | .terminals [] => some .emptyDeclaration
  | .start symbols =>
    if chosen then some .duplicateStart
    else if symbols.length = 1 then none
    else some (.startArity symbols.length)
  | _ => none

/-- The faults of statements among the others, by line. -/
def statementFaults (file : String) : Bool → List Line → List LocatedFault
  | _, [] => []
  | chosen, l :: ls =>
    let rest := statementFaults file (chosen || choosesStart l.statement) ls
    match statementFault? chosen l.statement with
    | some fault => ⟨⟨file, l.number⟩, fault⟩ :: rest
    | none => rest

/-! ### The edits -/

/-- The edits that some lines ask for, each with the number of its line. -/
def numberedEdits (lines : List Line) : List (Nat × Edit) :=
  lines.flatMap fun l => l.statement.edits.map fun e => (l.number, e)

/-- The grammar after some edits, and the refusals; a refused edit changes nothing. -/
def applyEdits : Grammar → List (Nat × Edit) → Grammar × List (Nat × GrammarError)
  | g, [] => (g, [])
  | g, (number, e) :: rest =>
    match g.edit e with
    | .ok g' => applyEdits g' rest
    | .error refusal =>
      let (g', refusals) := applyEdits g rest
      (g', (number, refusal) :: refusals)

/-- The faults that some refusals are. -/
def refusalFaults (file : String) (refusals : List (Nat × GrammarError)) : List LocatedFault :=
  refusals.map fun r => ⟨⟨file, r.1⟩, .grammar r.2⟩

/-! ### The stages together -/

/-- The record after the first stage. -/
def statementsRecord (file : String) (count : Nat) : LogRecord :=
  ⟨.debug, logTarget, "Parsed " ++ toString count ++ " statements from " ++ file⟩

/-- Some characters in braces, separated by commas. -/
def braced (cs : List Char) : String :=
  String.ofList ('{' :: [','].intercalate (cs.map fun c => [c]) ++ ['}'])

/-- The record after the last stage. -/
def grammarRecord (g : Grammar) : LogRecord :=
  ⟨.debug, logTarget, "Built grammar with nonterminals " ++ braced g.nonterminalChars ++
    ", terminals " ++ braced g.terminalChars ++ " and " ++ toString g.ruleCount ++
    " productions"⟩

/-- The record after a file has been loaded. -/
def loadedRecord (file : String) : LogRecord :=
  ⟨.info, logTarget, "Loaded grammar from " ++ file⟩

/-- Builds the grammar that some statements ask for. -/
def loadStatements (file : String) (lines : List Line) : Load :=
  match statementFaults file false lines with
  | f :: fs => ⟨[], .error (f :: fs)⟩
  | [] =>
    match applyEdits .empty (numberedEdits lines) with
    | (_, r :: rs) => ⟨[], .error (refusalFaults file (r :: rs))⟩
    | (g, []) => ⟨[grammarRecord g], .ok g⟩

/-- Builds the grammar that some lines describe. -/
def loadLines (file : String) (source : List RawLine) : Load :=
  match readLines file 1 source with
  | (f :: fs, _) => ⟨[], .error (f :: fs)⟩
  | ([], lines) =>
    let load := loadStatements file lines
    { load with log := statementsRecord file lines.length :: load.log }

/-- Builds the grammar that a text describes.  The path only labels faults. -/
def loadText (text file : String) : Load :=
  loadLines file ((textLines text.toList).map .ok)

/-- Adds to a load the record after a file has been loaded, if it has. -/
def noteLoaded (file : String) (load : Load) : Load :=
  match load.result with
  | .error _ => load
  | .ok _ => { load with log := load.log ++ [loadedRecord file] }

/-- Builds the grammar of a file, given what comes of opening and reading it.  There is no result if
the reading has no end. -/
def loadFile? (file : String) : FileReading → Option Load
  | .error problem => some ⟨[], .error [⟨⟨file, 0⟩, .unreadable problem⟩]⟩
  | .opened attempts => attempts.lines?.map fun source => noteLoaded file (loadLines file source)

/-- What the load of a file yields if it ends.  Of a load without end this says nothing. -/
def loadFile (file : String) (reading : FileReading) : Load :=
  (loadFile? file reading).getD ⟨[], .error []⟩

end GrammarFile

end ChomskyGrammar
