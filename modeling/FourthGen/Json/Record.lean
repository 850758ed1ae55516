import FourthGen.Json.Basic

set_option autoImplicit false

/-! # Records in JSON

A record is written as an object, of which the members are its fields by name, or as an array, of
which the items are its fields by place. Members of other names are passed over, but an array must
not have more items than the record has fields. -/

namespace FourthGen.Json

/-- The fields of a record in the order of their names, as far as there are any. An array may leave
    out fields at its end. -/
def fields? (names : List String) : Json → Option (List (Option Json))
  | obj members => some (names.map fun name => (obj members).get? name)
  | arr items =>
    if items.length ≤ names.length then some (names.mapIdx fun place _ => items[place]?) else none
  | _ => none

/-- The fields of a record of which an array has to hold every one. -/
def allFields? (names : List String) : Json → Option (List (Option Json))
  | arr items => if items.length = names.length then some (items.map some) else none
  | value => fields? names value

/-- A field that may be absent or null, but otherwise has to be readable. -/
def optional? {α : Type} (read? : Json → Option α) : Option Json → Option (Option α)
  | none | some null => some none
  | some value => (read? value).map some

end FourthGen.Json
