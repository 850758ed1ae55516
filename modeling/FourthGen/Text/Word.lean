import FourthGen.Text.Basic
import FourthGen.Unicode.Class

set_option autoImplicit false

/-! # Words around a cursor

A cursor stands in a line at a column counted in UTF-16 code units. This file divides a line at such
a column and finds the word on which the cursor stands. -/

namespace FourthGen.Text

/-- A character of a word: a letter or a number of any script, or an underscore. -/
def isWordChar (c : Char) : Bool := Unicode.isAlphanumeric c || c == '_'

/-- A line divided at a column. A column inside a character of two units divides behind it, and one
    past the end divides at the end. -/
def splitAtColumn (column : Nat) (line : List Char) : List Char × List Char :=
  splitAtMeasure utf16Width column line

@[simp] theorem splitAtColumn_zero (line : List Char) : splitAtColumn 0 line = ([], line) := by
  rw [splitAtColumn, splitAtMeasure]

@[simp] theorem splitAtColumn_nil (column : Nat) : splitAtColumn column [] = ([], []) := by
  cases column <;> rfl

theorem splitAtColumn_cons (column : Nat) (c : Char) (line : List Char) :
    splitAtColumn (column + 1) (c :: line) =
      (c :: (splitAtColumn (column + 1 - utf16Width c) line).1,
        (splitAtColumn (column + 1 - utf16Width c) line).2) := rfl

/-- Dividing a line loses nothing. -/
theorem splitAtColumn_append (column : Nat) (line : List Char) :
    (splitAtColumn column line).1 ++ (splitAtColumn column line).2 = line :=
  splitAtMeasure_append utf16Width column line

/-- The longest end of `left` that is made of word characters. -/
def wordEnd (left : List Char) : List Char := (left.reverse.takeWhile isWordChar).reverse

/-- The longest start of `right` that is made of word characters. -/
def wordStart (right : List Char) : List Char := right.takeWhile isWordChar

/-- The part of a word that stands left of a column. -/
def stemAt (column : Nat) (line : List Char) : List Char := wordEnd (splitAtColumn column line).1

/-- The word in which a column lies or at whose edge it stands; empty if there is none. -/
def wordAt (column : Nat) (line : List Char) : List Char :=
  let halves := splitAtColumn column line
  wordEnd halves.1 ++ wordStart halves.2

/-- The stretches of a line between characters that belong to no word. -/
def words (line : List Char) : List (List Char) := divide (!isWordChar ·) line

end FourthGen.Text
