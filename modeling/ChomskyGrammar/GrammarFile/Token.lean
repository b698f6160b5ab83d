/-
# Tokens of a grammar file

A line is made of words, `=` and `|`.  Blank characters separate words and are otherwise
skipped, and a `;` starts a comment that lasts to the end of the line.
-/
import ChomskyGrammar.Alphabet.Blank

namespace ChomskyGrammar

/-- A token of a line. -/
inductive Token where
  | equals
  | bar
  /-- A longest run of characters that are not blank and not one of `=`, `|` and `;`. -/
  | word (text : String)
deriving DecidableEq, Repr

namespace Token

/-- Whether a character may be part of a word. -/
def isWordChar (c : Char) : Bool :=
  !isBlank c && decide (c ≠ '=') && decide (c ≠ '|') && decide (c ≠ ';')

/-- The tokens of a line. -/
def ofChars : List Char → List Token
  | [] => []
  | c :: cs =>
    if c = ';' then []
    else if c = '=' then equals :: ofChars cs
    else if c = '|' then bar :: ofChars cs
    else if isBlank c then ofChars cs
    else word (String.ofList (c :: cs.takeWhile isWordChar)) :: ofChars (cs.dropWhile isWordChar)
termination_by cs => cs.length
decreasing_by
  · exact Nat.lt_succ_self _
  · exact Nat.lt_succ_self _
  · exact Nat.lt_succ_self _
  · exact Nat.lt_succ_of_le (List.dropWhile_sublist isWordChar).length_le

end Token

end ChomskyGrammar
