set_option autoImplicit false

/-! # JSON values

The values that clients and servers exchange. A number written as an integer is kept as one; any
other number (with a fraction, an exponent, or a minus sign before zero) is kept as it was written,
since nothing here computes with it. -/

namespace FourthGen

/-- A JSON value. The members of an object are kept in the order written. -/
inductive Json where
  | null
  | bool (value : Bool)
  | int (value : Int)
  | decimal (text : String)
  | str (value : String)
  | arr (items : List Json)
  | obj (members : List (String × Json))
  deriving Repr, Inhabited

namespace Json

/-- A natural number as a JSON integer. -/
def nat (n : Nat) : Json := int n

/-- The value of a member of an object; of several with one name, the last counts. -/
def get? (key : String) : Json → Option Json
  | obj members => (members.reverse.find? (·.1 == key)).map (·.2)
  | _ => none

/-- The text of a string. -/
def str? : Json → Option String
  | str value => some value
  | _ => none

/-- The value of a boolean. -/
def bool? : Json → Option Bool
  | bool value => some value
  | _ => none

/-- The elements of an array. -/
def arr? : Json → Option (List Json)
  | arr items => some items
  | _ => none

/-- An integer between the two bounds, both included. -/
def intWithin? (low high : Int) : Json → Option Int
  | int value => if low ≤ value ∧ value ≤ high then some value else none
  | _ => none

/-- A natural number up to the bound, which is included. -/
def natUpTo? (high : Nat) (value : Json) : Option Nat :=
  (value.intWithin? 0 high).map Int.toNat

/-- A signed integer of 32 bits. -/
def int32? (value : Json) : Option Int := value.intWithin? (-0x80000000) 0x7FFFFFFF

/-- An unsigned integer of 32 bits. -/
def nat32? (value : Json) : Option Nat := value.natUpTo? 0xFFFFFFFF

/-- An unsigned integer of 64 bits. -/
def nat64? (value : Json) : Option Nat := value.natUpTo? 0xFFFFFFFFFFFFFFFF

/-- The value, or `null` in place of none. -/
def orNull : Option Json → Json
  | some value => value
  | none => null

/-- An object of those members that have a value. -/
def objOfSome (members : List (String × Option Json)) : Json :=
  obj (members.filterMap fun m => m.2.map fun value => (m.1, value))

end Json

end FourthGen
