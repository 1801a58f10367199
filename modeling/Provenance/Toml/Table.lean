import Provenance.Toml.Basic

/-!
# Building TOML tables

A document adds to its tables line by line, and what may be added depends on how a table came about.
A table with a header of its own may get members by that header only; a table that dotted keys made
may get more of them; a table that is only named on the way to another one may still get a header.
A value is complete from the start.

* `Tree.assign?` gives a dotted key a value.
* `Tree.open?` and `Tree.openElement?` start the table of a header.
* `Tree.within?` changes the table of a header.
-/

namespace Provenance

namespace Toml

/-- How a table came about. -/
inductive Origin where
  /-- From a header of its own. -/
  | header
  /-- On the way to the table of a header. -/
  | implied
  /-- On the way to the value of a dotted key. -/
  | dotted
deriving DecidableEq

/-- What a key of a table under construction stands for. -/
inductive Item where
  | value (value : Toml)
  | table (origin : Origin) (members : List (String × Item))
  /-- An array of tables, the latest one first. -/
  | tables (latest : List (String × Item)) (earlier : List (List (String × Item)))

/-- A table under construction. -/
abbrev Tree : Type :=
  List (String × Item)

namespace Tree

/-- Changes what a key stands for, if the change is possible. -/
def alter? (key : String) (change : Option Item → Option Item) : Tree → Option Tree
  | [] => (change none).map fun item => [(key, item)]
  | (k, item) :: rest =>
    if k = key then (change (some item)).map fun item => (k, item) :: rest
    else (alter? key change rest).map ((k, item) :: ·)

/-- Gives a key a value; no key gets two. -/
def put? (key : String) (value : Toml) : Tree → Option Tree :=
  alter? key fun
    | none => some (.value value)
    | some _ => none

/-- Gives a dotted key a value, where `path` holds all parts of the key but the last.  Tables on the
way may not have a header of their own, and the last one has to come from dotted keys. -/
def assign? (key : String) (value : Toml) : (path : List String) → Tree → Option Tree
  | [] => put? key value
  | part :: path => alter? part fun
    | none => (assign? key value path []).map (.table .dotted)
    | some (.table origin members) =>
      if origin = .header ∨ (path = [] ∧ origin ≠ .dotted) then none
      else (assign? key value path members).map (.table origin)
    | some (.tables latest earlier) =>
      if path = [] then none
      else (assign? key value path latest).map (.tables · earlier)
    | some (.value _) => none

/-- Changes the table at the end of a path of headers; an array of tables stands for its latest
table. -/
def within? (change : Tree → Option Tree) : (path : List String) → Tree → Option Tree
  | [] => change
  | part :: path => alter? part fun
    | none => (within? change path []).map (.table .implied)
    | some (.table origin members) => (within? change path members).map (.table origin)
    | some (.tables latest earlier) => (within? change path latest).map (.tables · earlier)
    | some (.value _) => none

/-- Starts the table of a header. -/
def open? (path : List String) (key : String) : Tree → Option Tree :=
  within?
    (alter? key fun
      | none => some (.table .header [])
      | some (.table .implied members) => some (.table .header members)
      | some _ => none)
    path

/-- Starts another table in the array of a header. -/
def openElement? (path : List String) (key : String) : Tree → Option Tree :=
  within?
    (alter? key fun
      | none => some (.tables [] [])
      | some (.tables latest earlier) => some (.tables [] (latest :: earlier))
      | some _ => none)
    path

end Tree

mutual

/-- The value of a complete item. -/
def Item.close : Item → Toml
  | .value value => value
  | .table _ members => .table (closeMembers members)
  | .tables latest earlier => .array (closeTables earlier ++ [.table (closeMembers latest)])

/-- The values of complete members. -/
def closeMembers : List (String × Item) → List (String × Toml)
  | [] => []
  | (key, item) :: rest => (key, item.close) :: closeMembers rest

/-- The values of tables, the last one first. -/
def closeTables : List (List (String × Item)) → List Toml
  | [] => []
  | members :: rest => closeTables rest ++ [.table (closeMembers members)]

end

/-- The value of a complete table. -/
def Tree.close (tree : Tree) : Toml :=
  .table (closeMembers tree)

end Toml

end Provenance
