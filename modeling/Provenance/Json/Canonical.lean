import Provenance.Json.Basic

/-!
# The canonical form of a JSON value

A free-form object has each key once, in the order of the keys' characters, and so have the objects
inside it.  `Json.canonicalize` brings a value into this form, where of several members with one key
the last one stays; `Json.Value` is a value that is in it.  Two values in canonical form hold the
same members exactly when they are equal.

Main statements: `isCanonical_canonicalize`, and `canonicalize_of_isCanonical` (a value in canonical
form is left alone).
-/

namespace Provenance

namespace Json

/-- Puts a member into a member list in key order, in place of a member with the same key. -/
def putMember (key : String) (value : Json) : List (String × Json) → List (String × Json)
  | [] => [(key, value)]
  | (k, v) :: rest =>
    if key = k then (key, value) :: rest
    else if key < k then (key, value) :: (k, v) :: rest
    else (k, v) :: putMember key value rest

/-- Puts a member into a member list in key order unless its key is there already. -/
def addMember (key : String) (value : Json) (members : List (String × Json)) :
    List (String × Json) :=
  match find? key members with
  | some _ => members
  | none => putMember key value members

mutual

/-- The canonical form of a value. -/
def canonicalize : Json → Json
  | .array items => .array (canonicalizeItems items)
  | .object members => .object (canonicalizeMembers members)
  | .null => .null
  | .bool value => .bool value
  | .number value => .number value
  | .string value => .string value

/-- The canonical forms of the items of an array. -/
def canonicalizeItems : List Json → List Json
  | [] => []
  | item :: rest => canonicalize item :: canonicalizeItems rest

/-- The canonical form of a member list; a later member beats an earlier one. -/
def canonicalizeMembers : List (String × Json) → List (String × Json)
  | [] => []
  | (key, value) :: rest => addMember key (canonicalize value) (canonicalizeMembers rest)

end

mutual

/-- Whether every object inside a value has strictly increasing keys. -/
def isCanonical : Json → Bool
  | .array items => itemsCanonical items
  | .object members => membersCanonical members
  | .null | .bool _ | .number _ | .string _ => true

/-- Whether all items are in canonical form. -/
def itemsCanonical : List Json → Bool
  | [] => true
  | item :: rest => isCanonical item && itemsCanonical rest

/-- Whether the keys increase strictly and all values are in canonical form. -/
def membersCanonical : List (String × Json) → Bool
  | [] => true
  | (key, value) :: rest =>
    isCanonical value && (rest.all fun member => decide (key < member.1)) && membersCanonical rest

end

theorem membersCanonical_cons {key : String} {value : Json} {rest : List (String × Json)} :
    membersCanonical ((key, value) :: rest) = true ↔
      value.isCanonical = true ∧ (∀ member ∈ rest, key < member.1) ∧
        membersCanonical rest = true := by
  simp [membersCanonical, and_assoc]

/-- Of two keys that are neither equal nor in order, the second comes first. -/
theorem key_lt_of_not {a b : String} (hne : ¬ a = b) (hlt : ¬ a < b) : b < a := by
  rcases String.le_total a b with h | h
  · exact absurd (String.le_antisymm h (String.not_lt.mp hlt)) hne
  · exact String.not_le.mp fun h' => hne (String.le_antisymm h' h)

theorem mem_putMember {key : String} {value : Json} {members : List (String × Json)}
    {m : String × Json} (h : m ∈ putMember key value members) :
    m = (key, value) ∨ m ∈ members := by
  induction members with
  | nil => simpa [putMember] using h
  | cons head rest ih =>
    obtain ⟨k, v⟩ := head
    rw [putMember] at h
    split at h
    · rcases List.mem_cons.mp h with h | h
      · exact .inl h
      · exact .inr (List.mem_cons_of_mem _ h)
    · split at h
      · exact List.mem_cons.mp h
      · rcases List.mem_cons.mp h with h | h
        · exact .inr (h ▸ List.mem_cons_self)
        · exact (ih h).imp_right (List.mem_cons_of_mem _)

theorem membersCanonical_putMember {key : String} {value : Json} {members : List (String × Json)}
    (hv : value.isCanonical = true) (hm : membersCanonical members = true) :
    membersCanonical (putMember key value members) = true := by
  induction members with
  | nil => simpa [putMember, membersCanonical] using hv
  | cons head rest ih =>
    obtain ⟨k, v⟩ := head
    obtain ⟨hk, hlt, hrest⟩ := membersCanonical_cons.mp hm
    rw [putMember]
    split
    · subst_vars
      exact membersCanonical_cons.mpr ⟨hv, hlt, hrest⟩
    · split
      · rename_i hne hkey
        refine membersCanonical_cons.mpr ⟨hv, ?_, hm⟩
        intro m hmem
        rcases List.mem_cons.mp hmem with rfl | hmem
        · exact hkey
        · exact String.lt_trans hkey (hlt m hmem)
      · rename_i hne hkey
        refine membersCanonical_cons.mpr ⟨hk, ?_, ih hrest⟩
        intro m hmem
        rcases mem_putMember hmem with rfl | hmem
        · exact key_lt_of_not hne hkey
        · exact hlt m hmem

theorem membersCanonical_addMember {key : String} {value : Json} {members : List (String × Json)}
    (hv : value.isCanonical = true) (hm : membersCanonical members = true) :
    membersCanonical (addMember key value members) = true := by
  unfold addMember
  split
  · exact hm
  · exact membersCanonical_putMember hv hm

mutual

/-- The result of `canonicalize` is in canonical form. -/
theorem isCanonical_canonicalize : (value : Json) → (canonicalize value).isCanonical = true
  | .array items => by
    simpa [canonicalize, isCanonical] using itemsCanonical_canonicalizeItems items
  | .object members => by
    simpa [canonicalize, isCanonical] using membersCanonical_canonicalizeMembers members
  | .null | .bool _ | .number _ | .string _ => by simp [canonicalize, isCanonical]

theorem itemsCanonical_canonicalizeItems :
    (items : List Json) → itemsCanonical (canonicalizeItems items) = true
  | [] => rfl
  | item :: rest => by
    simp [canonicalizeItems, itemsCanonical, isCanonical_canonicalize item,
      itemsCanonical_canonicalizeItems rest]

theorem membersCanonical_canonicalizeMembers :
    (members : List (String × Json)) → membersCanonical (canonicalizeMembers members) = true
  | [] => rfl
  | (_, value) :: rest =>
    membersCanonical_addMember (isCanonical_canonicalize value)
      (membersCanonical_canonicalizeMembers rest)

end

theorem find?_eq_none_of_lt {key : String} {members : List (String × Json)}
    (h : ∀ member ∈ members, key < member.1) : find? key members = none := by
  induction members with
  | nil => rfl
  | cons head rest ih =>
    obtain ⟨k, v⟩ := head
    have hk : k ≠ key := fun e => String.lt_irrefl key (e ▸ h (k, v) List.mem_cons_self :)
    simp [find?, hk, ih fun m hm => h m (List.mem_cons_of_mem _ hm)]

theorem addMember_of_lt {key : String} {value : Json} {members : List (String × Json)}
    (h : ∀ member ∈ members, key < member.1) :
    addMember key value members = (key, value) :: members := by
  simp only [addMember, find?_eq_none_of_lt h]
  cases members with
  | nil => rfl
  | cons head rest =>
    obtain ⟨k, v⟩ := head
    have hk : key < k := h (k, v) List.mem_cons_self
    have hne : key ≠ k := fun e => String.lt_irrefl k (e ▸ hk)
    simp [putMember, hk, hne]

mutual

/-- A value in canonical form is its own canonical form. -/
theorem canonicalize_of_isCanonical :
    (value : Json) → value.isCanonical = true → canonicalize value = value
  | .array items, h => by
    simp [canonicalize, canonicalizeItems_of_canonical items (by simpa [isCanonical] using h)]
  | .object members, h => by
    simp [canonicalize, canonicalizeMembers_of_canonical members (by simpa [isCanonical] using h)]
  | .null, _ | .bool _, _ | .number _, _ | .string _, _ => by simp [canonicalize]

theorem canonicalizeItems_of_canonical :
    (items : List Json) → itemsCanonical items = true → canonicalizeItems items = items
  | [], _ => rfl
  | item :: rest, h => by
    simp only [itemsCanonical, Bool.and_eq_true] at h
    rw [canonicalizeItems, canonicalize_of_isCanonical item h.1,
      canonicalizeItems_of_canonical rest h.2]

theorem canonicalizeMembers_of_canonical :
    (members : List (String × Json)) → membersCanonical members = true →
      canonicalizeMembers members = members
  | [], _ => rfl
  | (key, value) :: rest, h => by
    obtain ⟨hv, hlt, hrest⟩ := membersCanonical_cons.mp h
    rw [canonicalizeMembers, canonicalize_of_isCanonical value hv,
      canonicalizeMembers_of_canonical rest hrest, addMember_of_lt hlt]

end

/-- A JSON value in canonical form. -/
abbrev Value := { value : Json // value.isCanonical = true }

/-- The canonical form of a value, as such. -/
def toValue (value : Json) : Value :=
  ⟨canonicalize value, isCanonical_canonicalize value⟩

/-- A string is in canonical form. -/
def Value.ofString (text : String) : Value :=
  ⟨.string text, rfl⟩

end Json

end Provenance
