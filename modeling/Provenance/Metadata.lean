import Provenance.Json.Canonical

/-!
# Metadata

Metadata is a free-form object that is kept in canonical form: each key once, in order, and every
value canonical too.  `Metadata.get?` is the view of it; `get?_insert` and `get?_erase` say what the
two changes do to the view.
-/

namespace Provenance

/-- A free-form object in canonical form. -/
structure Metadata where
  members : List (String × Json)
  canonical : Json.membersCanonical members = true
deriving DecidableEq

namespace Json

theorem isCanonical_of_find? {key : String} {members : List (String × Json)} {value : Json}
    (hm : membersCanonical members = true) (h : find? key members = some value) :
    value.isCanonical = true := by
  induction members with
  | nil => simp [find?] at h
  | cons head rest ih =>
    obtain ⟨k, v⟩ := head
    obtain ⟨hv, _, hrest⟩ := membersCanonical_cons.mp hm
    rw [find?] at h
    split at h
    · exact Option.some.inj h ▸ hv
    · exact ih hrest h

theorem membersCanonical_filter {members : List (String × Json)} {p : String × Json → Bool}
    (hm : membersCanonical members = true) : membersCanonical (members.filter p) = true := by
  induction members with
  | nil => rfl
  | cons head rest ih =>
    obtain ⟨k, v⟩ := head
    obtain ⟨hv, hlt, hrest⟩ := membersCanonical_cons.mp hm
    rw [List.filter_cons]
    split
    · exact membersCanonical_cons.mpr
        ⟨hv, fun m hmem => hlt m (List.mem_filter.mp hmem).1, ih hrest⟩
    · exact ih hrest

theorem find?_putMember (key k : String) (value : Json) (members : List (String × Json)) :
    find? k (putMember key value members) = if key = k then some value else find? k members := by
  induction members with
  | nil => simp [putMember, find?]
  | cons head rest ih =>
    obtain ⟨l, v⟩ := head
    rw [putMember]
    split
    · subst_vars
      simp only [find?]
      split <;> rfl
    · split
      · simp [find?]
      · rename_i hne _
        simp only [find?, ih]
        by_cases hl : l = k <;> by_cases hk : key = k <;> simp_all

theorem find?_filter_ne (key k : String) (members : List (String × Json)) :
    find? k (members.filter fun member => decide (member.1 ≠ key)) =
      if k = key then none else find? k members := by
  induction members with
  | nil => simp [find?]
  | cons head rest ih =>
    obtain ⟨l, v⟩ := head
    by_cases hl : l = key <;> by_cases hk : k = key <;> by_cases hkl : l = k <;>
      simp_all [find?]

end Json

namespace Metadata

/-- Metadata without a key. -/
def empty : Metadata :=
  ⟨[], rfl⟩

/-- The free-form object with these members, where the last one of a key counts. -/
def ofMembers (members : List (String × Json)) : Metadata :=
  ⟨Json.canonicalizeMembers members, Json.membersCanonical_canonicalizeMembers members⟩

/-- The value of a key. -/
def get? (metadata : Metadata) (key : String) : Option Json.Value :=
  match h : Json.find? key metadata.members with
  | some value => some ⟨value, Json.isCanonical_of_find? metadata.canonical h⟩
  | none => none

/-- The value of a key, if it is a string. -/
def text? (metadata : Metadata) (key : String) : Option String :=
  (Json.find? key metadata.members).bind Json.string?

/-- Gives a key a value. -/
def insert (metadata : Metadata) (key : String) (value : Json.Value) : Metadata :=
  ⟨Json.putMember key value.1 metadata.members,
    Json.membersCanonical_putMember value.2 metadata.canonical⟩

/-- Takes a key away. -/
def erase (metadata : Metadata) (key : String) : Metadata :=
  ⟨metadata.members.filter fun member => decide (member.1 ≠ key),
    Json.membersCanonical_filter metadata.canonical⟩

/-- Gives each key its value in turn. -/
def ofPairs (pairs : List (String × Json.Value)) : Metadata :=
  pairs.foldl (fun metadata pair => metadata.insert pair.1 pair.2) empty

/-- The JSON object. -/
def toJson (metadata : Metadata) : Json :=
  .object metadata.members

/-- Reads a JSON object. -/
def ofJson? : Json → Option Metadata
  | .object members => some (ofMembers members)
  | _ => none

theorem get?_map_val (metadata : Metadata) (key : String) :
    (metadata.get? key).map (·.1) = Json.find? key metadata.members := by
  unfold get?
  split <;> rename_i h <;> simp [h]

/-- A change of one key shows at that key only. -/
theorem get?_insert (metadata : Metadata) (key k : String) (value : Json.Value) :
    (metadata.insert key value).get? k = if key = k then some value else metadata.get? k := by
  apply Option.map_injective (f := Subtype.val) (fun _ _ h => Subtype.ext h)
  rw [get?_map_val, insert, Json.find?_putMember]
  split
  · rfl
  · exact (get?_map_val metadata k).symm

/-- A key that was taken away is absent; the others stay. -/
theorem get?_erase (metadata : Metadata) (key k : String) :
    (metadata.erase key).get? k = if k = key then none else metadata.get? k := by
  apply Option.map_injective (f := Subtype.val) (fun _ _ h => Subtype.ext h)
  rw [get?_map_val, erase, Json.find?_filter_ne]
  split
  · rfl
  · exact (get?_map_val metadata k).symm

/-- Reading a written object gives it back. -/
theorem ofJson?_toJson (metadata : Metadata) : ofJson? metadata.toJson = some metadata := by
  simp [ofJson?, toJson, ofMembers,
    Json.canonicalizeMembers_of_canonical metadata.members metadata.canonical]

end Metadata

end Provenance
