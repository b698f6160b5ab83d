/-
# Options of the command line

The options that the program knows, their long and short names, and the values that some
of them take.
-/

namespace ChomskyGrammar

namespace CommandLine

/-- An option. -/
inductive OptionName where
  /-- Choose another start symbol than the file does. -/
  | start
  | table
  | grammar
  | generate
  /-- Set the depth from which on random words are kept short. -/
  | maxDepth
  | seed
  | verbose
  | help
  | version
deriving DecidableEq, Repr

namespace OptionName

/-- All options. -/
def all : List OptionName :=
  [start, table, grammar, generate, maxDepth, seed, verbose, help, version]

/-- The name that is written after `--`. -/
def long : OptionName → String
  | start => "start"
  | table => "table"
  | grammar => "grammar"
  | generate => "generate"
  | maxDepth => "max-depth"
  | seed => "seed"
  | verbose => "verbose"
  | help => "help"
  | version => "version"

/-- The letter that is written after `-`, if there is one. -/
def short? : OptionName → Option Char
  | start => some 's'
  | table => some 't'
  | grammar => some 'g'
  | generate => some 'n'
  | maxDepth => none
  | seed => none
  | verbose => some 'v'
  | help => some 'h'
  | version => some 'V'

/-- Whether the option has a value. -/
def takesValue : OptionName → Bool
  | start | generate | maxDepth | seed => true
  | table | grammar | verbose | help | version => false

/-- The option with a long name.  A name is never abbreviated. -/
def ofLong? (name : String) : Option OptionName := all.find? fun o => decide (o.long = name)

/-- The option with a letter. -/
def ofShort? (c : Char) : Option OptionName := all.find? fun o => decide (o.short? = some c)

theorem mem_all (o : OptionName) : o ∈ all := by
  cases o <;> decide

theorem ofLong?_long (o : OptionName) : ofLong? o.long = some o := by
  cases o <;> decide

end OptionName

/-- Why the arguments make no sense. -/
inductive UsageError where
  | unknownOption (text : String)
  /-- An option that takes none has a value. -/
  | unwantedValue (o : OptionName)
  /-- An option that takes one has no value. -/
  | missingValue (o : OptionName)
  /-- A value is not of the right form. -/
  | badValue (o : OptionName) (text : String)
  | repeated (o : OptionName)
  /-- The file is missing, or its name is empty. -/
  | missingFile
deriving DecidableEq, Repr

namespace UsageError

/-- The text that tells a user what is wrong. -/
def message : UsageError → String
  | unknownOption text => s!"unexpected argument '{text}'"
  | unwantedValue o => "unexpected value for '--" ++ o.long ++ "'"
  | missingValue o => "a value is required for '--" ++ o.long ++ "'"
  | badValue o text => "invalid value '" ++ text ++ "' for '--" ++ o.long ++ "'"
  | repeated o => "'--" ++ o.long ++ "' cannot be used multiple times"
  | missingFile => "a grammar file is required"

end UsageError

/-! ### Values -/

/-- The number that some decimal digits stand for. -/
def readDigits (cs : List Char) : Option Nat :=
  if cs ≠ [] ∧ cs.all Char.isDigit then
    some (cs.foldl (fun n c => 10 * n + (c.toNat - '0'.toNat)) 0)
  else none

/-- The number that a text stands for: decimal digits, perhaps after a plus sign. -/
def readUnsigned (text : String) : Option Nat :=
  match text.toList with
  | '+' :: cs => readDigits cs
  | cs => readDigits cs

/-- The number that a text stands for, where a minus sign may stand before a zero. -/
def readAmount (text : String) : Option Nat :=
  match text.toList with
  | '-' :: cs => (readDigits cs).filter fun n => decide (n = 0)
  | _ => readUnsigned text

/-- The largest amount of random words. -/
def maxAmount : Nat := 0xFFFFFFFF

/-- The largest depth or seed. -/
def maxWide : Nat := 0xFFFFFFFFFFFFFFFF

/-- The only character of a text. -/
def readChar (text : String) : Option Char :=
  match text.toList with
  | [c] => some c
  | _ => none

end CommandLine

end ChomskyGrammar
