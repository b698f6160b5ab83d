/-
# Blank characters

The characters with the Unicode 17.0 property `White_Space`.  They separate the words
of a grammar file and mean nothing else there.
-/
import ChomskyGrammar.Alphabet.Range

namespace ChomskyGrammar

/-- The code points with the property `White_Space`, in ascending order. -/
def blankRanges : List CodeRange :=
  [⟨0x9, 0xD, 1⟩, ⟨0x20, 0x20, 1⟩, ⟨0x85, 0x85, 1⟩, ⟨0xA0, 0xA0, 1⟩, ⟨0x1680, 0x1680, 1⟩,
   ⟨0x2000, 0x200A, 1⟩, ⟨0x2028, 0x2029, 1⟩, ⟨0x202F, 0x202F, 1⟩, ⟨0x205F, 0x205F, 1⟩,
   ⟨0x3000, 0x3000, 1⟩]

/-- Whether a character is blank. -/
def isBlank (c : Char) : Bool :=
  inRanges blankRanges c

end ChomskyGrammar
