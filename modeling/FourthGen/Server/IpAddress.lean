import FourthGen.Text.Basic

set_option autoImplicit false

/-! # IP addresses

An address of version 4 is four octets in decimal between full stops. An address of version 6 is
eight groups in hexadecimal between colons; its last two groups may be written as an address of
version 4, and a gap of two colons may stand for one or more groups. -/

namespace FourthGen.IpAddress

/-! ## Version 4 -/

/-- The decimal digits of a number below 256, without leading zeros. -/
def isOctet (cs : List Char) : Bool := (List.range 256).any fun n => Nat.toDigits 10 n == cs

/-- An address of version 4. -/
def isVersion4 (cs : List Char) : Bool :=
  let octets := Text.divide (· == '.') cs
  octets.length == 4 && octets.all isOctet

/-! ## Version 6 -/

/-- A group of an address of version 6: one to four hexadecimal digits. -/
def isGroup (cs : List Char) : Bool :=
  !cs.isEmpty && cs.length ≤ 4 && cs.all Text.isHexDigit

/-- The fields of a text between its colons; the empty text has none. -/
def fields (cs : List Char) : List (List Char) :=
  if cs.isEmpty then [] else Text.divide (· == ':') cs

/-- How many groups the end of an address spells out, if every field of it is a group and the last a
    group or an address of version 4, which counts for two. -/
def groupCount? : List (List Char) → Option Nat
  | [] => some 0
  | [last] => if isGroup last then some 1 else if isVersion4 last then some 2 else none
  | field :: rest => if isGroup field then (groupCount? rest).map (· + 1) else none

/-- A text divided at its first gap, which belongs to neither part. -/
def cutAtGap : List Char → List Char × Option (List Char)
  | [] => ([], none)
  | ':' :: ':' :: rest => ([], some rest)
  | c :: rest =>
    let cut := cutAtGap rest
    (c :: cut.1, cut.2)

/-- An address of version 6. Without a gap it spells out eight groups, with one fewer. -/
def isVersion6 (cs : List Char) : Bool :=
  match cutAtGap cs with
  | (whole, none) => groupCount? (fields whole) == some 8
  | (front, some back) =>
    (fields front).all isGroup &&
      (groupCount? (fields back)).any fun count => (fields front).length + count < 8

end FourthGen.IpAddress
