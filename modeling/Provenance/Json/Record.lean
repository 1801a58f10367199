import Provenance.Json.Basic

/-!
# Records in JSON

A record is written as an object.  It is read from an object in which no known member is repeated,
whatever else stands there, or from an array that has the members' values in their order and may
break off early, unless the record has to be whole.  `Record` is what such a value says about the
known members; `required?` and `optional?` read one of them.
-/

namespace Provenance

/-- The members of a record that a JSON value gives. -/
structure Record where
  given : List (String × Json)

namespace Record

/-- The members among `names` that a value gives. -/
def of? (names : List String) : Json → Option Record
  | .object members =>
    let known := members.filter fun member => names.contains member.1
    if (known.map (·.1)).Nodup then some ⟨known⟩ else none
  | .array items => if items.length ≤ names.length then some ⟨names.zip items⟩ else none
  | _ => none

/-- The members among `names` that a value gives, where an array has to give all of them. -/
def ofWhole? (names : List String) : Json → Option Record
  | .array items => if items.length = names.length then of? names (.array items) else none
  | value => of? names value

/-- A member that has to be given. -/
def required? {α : Type} (record : Record) (name : String) (value? : Json → Option α) :
    Option α :=
  (Json.find? name record.given).bind value?

/-- A member that has a default. -/
def optional? {α : Type} (record : Record) (name : String) (default : α)
    (value? : Json → Option α) : Option α :=
  match Json.find? name record.given with
  | some value => value? value
  | none => some default

end Record

/-- The word of an enumeration: a string, or an object whose only member has this key and the value
null. -/
def Json.enumWord? : Json → Option String
  | .string text => some text
  | .object [(key, .null)] => some key
  | _ => none

end Provenance
