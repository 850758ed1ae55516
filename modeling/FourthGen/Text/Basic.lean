set_option autoImplicit false

/-! # Text measures, letter case and lines

Source text is handled as a list of characters. This file holds the measures an editor protocol
needs (UTF-8 bytes for offsets, UTF-16 code units for columns) and how a text is divided by them, the
ASCII letter-case operations with which words are compared, and the lines of a text. -/

namespace FourthGen.Text

/-! ## Measures -/

/-- The total of a measure over a list. -/
def total {α : Type} (measure : α → Nat) (xs : List α) : Nat :=
  xs.foldr (fun x n => measure x + n) 0

@[simp] theorem total_nil {α : Type} (measure : α → Nat) : total measure [] = 0 := rfl

@[simp] theorem total_cons {α : Type} (measure : α → Nat) (x : α) (xs : List α) :
    total measure (x :: xs) = measure x + total measure xs := rfl

@[simp] theorem total_append {α : Type} (measure : α → Nat) (xs ys : List α) :
    total measure (xs ++ ys) = total measure xs + total measure ys := by
  induction xs with
  | nil => simp
  | cons x xs ih => simp [ih, Nat.add_assoc]

/-- The number of UTF-16 code units of a character: two outside the basic plane, else one. -/
def utf16Width (c : Char) : Nat := if c.toNat < 0x10000 then 1 else 2

/-- The length of a text in UTF-16 code units. -/
def utf16Length (cs : List Char) : Nat := total utf16Width cs

/-- The length of a text in UTF-8 bytes. -/
def utf8Length (cs : List Char) : Nat := total Char.utf8Size cs

theorem utf16Width_pos (c : Char) : 0 < utf16Width c := by
  unfold utf16Width
  split <;> decide

@[simp] theorem utf16Length_nil : utf16Length [] = 0 := rfl

@[simp] theorem utf16Length_cons (c : Char) (cs : List Char) :
    utf16Length (c :: cs) = utf16Width c + utf16Length cs := rfl

@[simp] theorem utf16Length_append (a b : List Char) :
    utf16Length (a ++ b) = utf16Length a + utf16Length b := total_append utf16Width a b

@[simp] theorem utf8Length_nil : utf8Length [] = 0 := rfl

@[simp] theorem utf8Length_cons (c : Char) (cs : List Char) :
    utf8Length (c :: cs) = c.utf8Size + utf8Length cs := rfl

@[simp] theorem utf8Length_append (a b : List Char) :
    utf8Length (a ++ b) = utf8Length a + utf8Length b := total_append Char.utf8Size a b

/-! ## Dividing by a measure -/

/-- A text divided where its measure reaches `n`: behind a character in which this happens, and at the
    end if it does not happen. -/
def splitAtMeasure (measure : Char → Nat) : (n : Nat) → (cs : List Char) → List Char × List Char
  | 0, cs => ([], cs)
  | _ + 1, [] => ([], [])
  | n + 1, c :: cs =>
    let rest := splitAtMeasure measure (n + 1 - measure c) cs
    (c :: rest.1, rest.2)

/-- Dividing a text loses nothing. -/
theorem splitAtMeasure_append (measure : Char → Nat) (n : Nat) (cs : List Char) :
    (splitAtMeasure measure n cs).1 ++ (splitAtMeasure measure n cs).2 = cs := by
  induction cs generalizing n with
  | nil => cases n <;> rfl
  | cons c cs ih =>
    cases n with
    | zero => rfl
    | succ n => simpa [splitAtMeasure] using ih _

/-- Two parts of a text are told apart by the measure of the first. -/
theorem splitAtMeasure_total {measure : Char → Nat} (hpos : ∀ c, 0 < measure c) (a b : List Char) :
    splitAtMeasure measure (total measure a) (a ++ b) = (a, b) := by
  induction a with
  | nil => simp [splitAtMeasure]
  | cons c a ih =>
    obtain ⟨n, hn⟩ : ∃ n, measure c + total measure a = n + 1 :=
      Nat.exists_eq_succ_of_ne_zero (Nat.ne_of_gt (Nat.add_pos_left (hpos c) _))
    have hrest : n + 1 - measure c = total measure a := by omega
    rw [total_cons, hn, List.cons_append, splitAtMeasure, hrest, ih]

/-- The part of a text between two byte offsets. -/
def slice (start stop : Nat) (cs : List Char) : List Char :=
  (splitAtMeasure Char.utf8Size (stop - start) (splitAtMeasure Char.utf8Size start cs).2).1

/-- What stands between two places of a text is its slice between their offsets. -/
theorem slice_append (a b c : List Char) :
    slice (utf8Length a) (utf8Length (a ++ b)) (a ++ (b ++ c)) = b := by
  have hlen : utf8Length (a ++ b) - utf8Length a = total Char.utf8Size b := by
    rw [utf8Length_append, Nat.add_sub_cancel_left]
    rfl
  rw [slice, hlen, utf8Length, splitAtMeasure_total Char.utf8Size_pos,
    splitAtMeasure_total Char.utf8Size_pos]

/-! ## Letter case

Words of the language are compared without regard to the case of ASCII letters; any other
character only equals itself. -/

/-- The text with every ASCII letter in upper case. -/
def upper (s : String) : String := String.ofList (s.toList.map Char.toUpper)

/-- The text with every ASCII letter in lower case. -/
def lower (s : String) : String := String.ofList (s.toList.map Char.toLower)

/-- Whether two texts agree up to the case of ASCII letters. -/
def sameWord (a b : String) : Bool := a.toList.map Char.toLower == b.toList.map Char.toLower

/-- Whether `s` starts with `stem` up to the case of ASCII letters. -/
def startsWithFold (stem s : String) : Bool :=
  (stem.toList.map Char.toLower).isPrefixOf (s.toList.map Char.toLower)

/-! ## Names and digits -/

/-- A hexadecimal digit. -/
def isHexDigit (c : Char) : Bool := c.isDigit || ('a' ≤ c && c ≤ 'f') || ('A' ≤ c && c ≤ 'F')

/-- A character that can start a name: an ASCII letter or an underscore. -/
def isNameStart (c : Char) : Bool := c.isAlpha || c == '_'

/-- A character that can continue a name: an ASCII letter, a digit or an underscore. -/
def isNameRest (c : Char) : Bool := c.isAlphanum || c == '_'

/-- Whether a text has the form of a name. -/
def isName (s : String) : Bool :=
  match s.toList with
  | [] => false
  | c :: cs => isNameStart c && cs.all isNameRest

/-! ## Lines -/

/-- The pieces of a text between the characters that satisfy `sep`: one more than there are such
    characters. -/
def divide (sep : Char → Bool) : List Char → List (List Char)
  | [] => [[]]
  | c :: cs =>
    if sep c then [] :: divide sep cs
    else
      match divide sep cs with
      | [] => [[c]]
      | piece :: rest => (c :: piece) :: rest

/-- The pieces of a text between its line feeds. -/
def pieces (cs : List Char) : List (List Char) := divide (· == '\n') cs

/-- A line without one carriage return at its end. -/
def dropReturn (line : List Char) : List Char :=
  if line.getLast? = some '\r' then line.dropLast else line

/-- The lines of a text: its pieces, each without one carriage return at its end. -/
def lines (cs : List Char) : List (List Char) := (pieces cs).map dropReturn

/-- The byte offsets behind the line feeds of a text that starts at an offset itself. -/
def startsBehind (offset : Nat) : List Char → List Nat
  | [] => []
  | c :: cs =>
    if c = '\n' then (offset + 1) :: startsBehind (offset + 1) cs
    else startsBehind (offset + c.utf8Size) cs

/-- The byte offsets at which the lines of a text start: its start, and behind every line feed. -/
def lineStarts (cs : List Char) : List Nat := 0 :: startsBehind 0 cs

theorem divide_ne_nil (sep : Char → Bool) (cs : List Char) : divide sep cs ≠ [] := by
  cases cs with
  | nil => simp [divide]
  | cons c cs =>
    simp only [divide]
    split
    · simp
    · split <;> simp

/-- A text has one more piece than it has separating characters. -/
theorem length_divide (sep : Char → Bool) (cs : List Char) :
    (divide sep cs).length = cs.countP sep + 1 := by
  induction cs with
  | nil => rfl
  | cons c cs ih =>
    simp only [divide]
    split
    · next h => simp [h, ih]
    · next h =>
      split
      · next hp => exact absurd hp (divide_ne_nil sep cs)
      · next hp =>
        rw [hp] at ih
        simpa [List.countP_cons, h] using ih

end FourthGen.Text
