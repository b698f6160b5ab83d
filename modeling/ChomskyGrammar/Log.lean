/-
# Log records

What the loader and the command line tell about their progress.  A record has a level, so
that a reader can ask for less or more of them.
-/

namespace ChomskyGrammar

/-- How much a record matters, least first. -/
inductive LogLevel where
  | debug
  | info
  | warn
deriving DecidableEq, Repr

namespace LogLevel

/-- The name of a level. -/
def name : LogLevel → String
  | debug => "DEBUG"
  | info => "INFO"
  | warn => "WARN"

/-- The place of a level in the order of levels. -/
def rank : LogLevel → Nat
  | debug => 0
  | info => 1
  | warn => 2

end LogLevel

/-- One record of a log. -/
structure LogRecord where
  level : LogLevel
  /-- The part of the program that speaks. -/
  target : String
  message : String
deriving DecidableEq, Repr

namespace LogRecord

/-- The record on one line: level, target and message. -/
def text (r : LogRecord) : String := r.level.name ++ " " ++ r.target ++ " " ++ r.message

end LogRecord

end ChomskyGrammar
