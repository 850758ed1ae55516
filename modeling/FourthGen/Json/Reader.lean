import FourthGen.Json.Basic

set_option autoImplicit false

/-! # Reading JSON

A reader for JSON texts. Arrays and objects may nest up to a fixed depth; what stands deeper is
refused, like any text that is not JSON. -/

namespace FourthGen.Json

/-- How many arrays and objects may stand inside each other. -/
def maxDepth : Nat := 127

/-- The white space allowed between the parts of a JSON text. -/
def isBlank (c : Char) : Bool := c == ' ' || c == '\t' || c == '\n' || c == '\r'

/-- The text without the white space at its start. -/
def skipBlank (cs : List Char) : List Char := cs.dropWhile isBlank

/-! ## Numbers -/

/-- Digits, at least one, and what follows them. -/
def digits? (cs : List Char) : Option (List Char × List Char) :=
  match cs.takeWhile Char.isDigit with
  | [] => none
  | ds => some (ds, cs.dropWhile Char.isDigit)

/-- The digits of the integer part, without needless zeros in front. -/
def integerPart? : List Char → Option (List Char × List Char)
  | '0' :: rest => some (['0'], rest)
  | cs => digits? cs

/-- The fraction of a number with its point; nothing if there is none. -/
def fraction? : List Char → Option (List Char × List Char)
  | '.' :: rest => (digits? rest).map fun (ds, rest) => ('.' :: ds, rest)
  | cs => some ([], cs)

/-- The exponent of a number with its mark; nothing if there is none. -/
def exponent? : List Char → Option (List Char × List Char)
  | e :: sign :: rest =>
    if e = 'e' ∨ e = 'E' then
      if sign = '+' ∨ sign = '-' then
        (digits? rest).map fun (ds, rest) => (e :: sign :: ds, rest)
      else
        (digits? (sign :: rest)).map fun (ds, rest) => (e :: ds, rest)
    else some ([], e :: sign :: rest)
  | [e] => if e = 'e' ∨ e = 'E' then none else some ([], [e])
  | [] => some ([], [])

/-- The number that a list of digits denotes. -/
def ofDigits (ds : List Char) : Nat := ds.foldl (fun n d => 10 * n + (d.toNat - '0'.toNat)) 0

/-- A number whose sign has been read. -/
def unsigned? (negative : Bool) (cs : List Char) : Option (Json × List Char) := do
  let (whole, rest) ← integerPart? cs
  let (frac, rest) ← fraction? rest
  let (expo, rest) ← exponent? rest
  let value : Int := if negative then -(ofDigits whole) else ofDigits whole
  if frac.isEmpty && expo.isEmpty && !(negative && value == 0) then
    return (int value, rest)
  else
    let sign := if negative then ['-'] else []
    return (decimal (String.ofList (sign ++ whole ++ frac ++ expo)), rest)

/-- A number. -/
def number? : List Char → Option (Json × List Char)
  | '-' :: rest => unsigned? true rest
  | cs => unsigned? false cs

/-! ## Strings -/

/-- The value of a hexadecimal digit. -/
def hexDigit? (c : Char) : Option Nat :=
  if c.isDigit then some (c.toNat - '0'.toNat)
  else if 'a' ≤ c ∧ c ≤ 'f' then some (c.toNat - 'a'.toNat + 10)
  else if 'A' ≤ c ∧ c ≤ 'F' then some (c.toNat - 'A'.toNat + 10)
  else none

/-- The code unit that four hexadecimal digits denote. -/
def codeUnit? (a b c d : Char) : Option Nat := do
  return (((← hexDigit? a) * 16 + (← hexDigit? b)) * 16 + (← hexDigit? c)) * 16 + (← hexDigit? d)

/-- The character that a letter behind a backslash stands for. -/
def escaped? : Char → Option Char
  | '"' => some '"'
  | '\\' => some '\\'
  | '/' => some '/'
  | 'b' => some '\x08'
  | 'f' => some '\x0c'
  | 'n' => some '\n'
  | 'r' => some '\r'
  | 't' => some '\t'
  | _ => none

/-- Whether a code unit is the first, or the second, half of a surrogate pair. -/
def isHighSurrogate (n : Nat) : Bool := 0xD800 ≤ n && n < 0xDC00

@[inherit_doc isHighSurrogate]
def isLowSurrogate (n : Nat) : Bool := 0xDC00 ≤ n && n < 0xE000

/-- The character of a surrogate pair. -/
def ofSurrogates (high low : Nat) : Char :=
  Char.ofNat (0x10000 + (high - 0xD800) * 0x400 + (low - 0xDC00))

/-- What follows the opening quote of a string, up to and including the closing one; `done` holds
    the characters already read, the latest first. -/
def stringRest? (done : List Char) : List Char → Option (String × List Char)
  | [] => none
  | '"' :: rest => some (String.ofList done.reverse, rest)
  | '\\' :: 'u' :: a :: b :: c :: d :: '\\' :: 'u' :: e :: f :: g :: h :: rest => do
    let unit ← codeUnit? a b c d
    if isHighSurrogate unit then
      let next ← codeUnit? e f g h
      if isLowSurrogate next then stringRest? (ofSurrogates unit next :: done) rest else none
    else if isLowSurrogate unit then none
    else stringRest? (Char.ofNat unit :: done) ('\\' :: 'u' :: e :: f :: g :: h :: rest)
  | '\\' :: 'u' :: a :: b :: c :: d :: rest => do
    let unit ← codeUnit? a b c d
    if isHighSurrogate unit || isLowSurrogate unit then none
    else stringRest? (Char.ofNat unit :: done) rest
  | '\\' :: c :: rest => do stringRest? ((← escaped? c) :: done) rest
  | c :: rest => if c.toNat < 0x20 ∨ c = '\\' then none else stringRest? (c :: done) rest

/-- A string. -/
def string? (cs : List Char) : Option (String × List Char) :=
  match skipBlank cs with
  | '"' :: rest => stringRest? [] rest
  | _ => none

/-! ## Values -/

/-- Items divided by commas, at least one, up to and including the character `close`. There are
    never more of them than `limit`. -/
def items? {α : Type} (item? : List Char → Option (α × List Char)) (close : Char) :
    (limit : Nat) → List Char → Option (List α × List Char)
  | 0, _ => none
  | limit + 1, cs => do
    let (a, rest) ← item? cs
    match skipBlank rest with
    | [] => none
    | c :: rest =>
      if c = ',' then
        let (as, rest) ← items? item? close limit rest
        return (a :: as, rest)
      else if c = close then
        return ([a], rest)
      else none

/-- The inside of an array or object behind its opening bracket, its closing bracket included. -/
def container? {α : Type} (item? : List Char → Option (α × List Char)) (close : Char)
    (cs : List Char) : Option (List α × List Char) :=
  match skipBlank cs with
  | [] => none
  | c :: rest => if c = close then some ([], rest) else items? item? close cs.length (c :: rest)

/-- A member of an object, its value being read by `value?`. -/
def member? (value? : List Char → Option (Json × List Char)) (cs : List Char) :
    Option ((String × Json) × List Char) := do
  let (key, rest) ← string? cs
  match skipBlank rest with
  | ':' :: rest =>
    let (value, rest) ← value? rest
    return ((key, value), rest)
  | _ => none

/-- A value in which arrays and objects nest up to the given depth. -/
def value? : (depth : Nat) → List Char → Option (Json × List Char)
  | depth, cs =>
    match skipBlank cs with
    | 'n' :: 'u' :: 'l' :: 'l' :: rest => some (null, rest)
    | 't' :: 'r' :: 'u' :: 'e' :: rest => some (bool true, rest)
    | 'f' :: 'a' :: 'l' :: 's' :: 'e' :: rest => some (bool false, rest)
    | '"' :: rest => (stringRest? [] rest).map fun (s, rest) => (str s, rest)
    | '[' :: rest =>
      match depth with
      | 0 => none
      | depth + 1 => (container? (value? depth) ']' rest).map fun (as, rest) => (arr as, rest)
    | '\x7b' :: rest =>
      match depth with
      | 0 => none
      | depth + 1 =>
        (container? (member? (value? depth)) '\x7d' rest).map fun (ms, rest) => (obj ms, rest)
    | rest => number? rest

/-- The value that a text denotes, if it is JSON. -/
def read? (text : String) : Option Json := do
  let (value, rest) ← value? maxDepth text.toList
  if (skipBlank rest).isEmpty then some value else none

end FourthGen.Json
