import FourthGen.Unicode.Added
import FourthGen.Unicode.Alphabetic
import FourthGen.Unicode.Mark
import FourthGen.Unicode.Number

set_option autoImplicit false

/-! # Classes of characters

Two notions of a word character are in use. An editor's word, as it is looked up under the cursor,
is made of letters and numbers of any kind (`isAlphanumeric`). A word of a text pattern is made of
letters, combining marks, decimal digits and connectors (`isWordPart`); the two differ on marks and
on numbers that are not digits. An editor's word follows version 17.0 of Unicode and a text pattern
version 16.0, so they also differ on the characters that came between. On ASCII characters both are
letters and digits, but only the second holds of the underscore. -/

namespace FourthGen.Unicode

/-- Whether a code point lies in one of the ranges. -/
def inRanges (ranges : List (Nat × Nat)) (n : Nat) : Bool := ranges.any fun r => r.1 ≤ n && n ≤ r.2

/-- A character with the property Alphabetic. -/
def isAlphabetic (c : Char) : Bool :=
  if c.toNat < 0x80 then c.isAlpha else inRanges alphabeticRanges c.toNat

/-- A number of any kind: a decimal digit, a letter used as a number, or another number. -/
def isNumber (c : Char) : Bool :=
  if c.toNat < 0x80 then c.isDigit
  else inRanges decimalDigitRanges c.toNat || inRanges letterNumberRanges c.toNat ||
    inRanges otherNumberRanges c.toNat

/-- A letter or a number. -/
def isAlphanumeric (c : Char) : Bool := isAlphabetic c || isNumber c

/-- The ranges of connector punctuation beyond ASCII. -/
def connectorRanges : List (Nat × Nat) :=
  [(0x203F, 0x2040), (0x2054, 0x2054), (0xFE33, 0xFE34), (0xFE4D, 0xFE4F), (0xFF3F, 0xFF3F)]

/-- The range of the characters that control the joining of letters. -/
def joinControlRanges : List (Nat × Nat) := [(0x200C, 0x200D)]

/-- A character of a word in a text pattern: in version 16.0 of Unicode it is alphabetic, a
    combining mark, a decimal digit, connector punctuation or a join control. -/
def isWordPart (c : Char) : Bool :=
  if c.toNat < 0x80 then c.isAlphanum || c == '_'
  else !inRanges addedRanges c.toNat &&
    (inRanges alphabeticRanges c.toNat || inRanges markRanges c.toNat ||
      inRanges decimalDigitRanges c.toNat || inRanges connectorRanges c.toNat ||
      inRanges joinControlRanges c.toNat)

/-- The ranges of white space. -/
def whiteSpaceRanges : List (Nat × Nat) :=
  [(0x9, 0xD), (0x20, 0x20), (0x85, 0x85), (0xA0, 0xA0), (0x1680, 0x1680), (0x2000, 0x200A),
   (0x2028, 0x2029), (0x202F, 0x202F), (0x205F, 0x205F), (0x3000, 0x3000)]

/-- A character with the property White_Space. -/
def isWhiteSpace (c : Char) : Bool := inRanges whiteSpaceRanges c.toNat

/-- The simple case folding of the characters that fold to an ASCII character: the ASCII capitals,
    the long s and the Kelvin sign. Any other character is kept. -/
def foldCase (c : Char) : Char :=
  if c = 'ſ' then 's' else if c.toNat = 0x212A then 'k' else c.toLower

end FourthGen.Unicode
