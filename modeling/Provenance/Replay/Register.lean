import Provenance.Bundle.Basic

/-!
# Registers

A register keeps something for each of some bundle ids, in the order in which it was entered.  What
is entered for an id stays: a later entry for the same id does not count.

* `Register.get?_add` says what is there for any id after one more entry.
* `Register.get?_add_of_some` says that an entry never changes.
-/

namespace Provenance

/-- What is kept for each of some ids. -/
structure Register (α : Type) where
  /-- The entries, the oldest first. -/
  entries : List (BundleId × α)
  /-- No id has two entries. -/
  nodup : (entries.map Prod.fst).Nodup
deriving DecidableEq

namespace Register

variable {α : Type}

/-- A register without entries. -/
def empty : Register α :=
  ⟨[], List.nodup_nil⟩

/-- The ids that have an entry. -/
def ids (register : Register α) : List BundleId :=
  register.entries.map Prod.fst

/-- What is kept for an id. -/
def get? (register : Register α) (id : BundleId) : Option α :=
  register.entries.lookup id

/-- Whether something is kept for an id. -/
def contains (register : Register α) (id : BundleId) : Bool :=
  (register.get? id).isSome

/-- The number of entries. -/
def size (register : Register α) : Nat :=
  register.entries.length

/-- An id has an entry exactly if it is among the ids. -/
theorem contains_iff {register : Register α} {id : BundleId} :
    register.contains id = true ↔ id ∈ register.ids := by
  simp [contains, get?, ids]

theorem mem_of_get? {register : Register α} {id : BundleId} {value : α}
    (h : register.get? id = some value) : (id, value) ∈ register.entries := by
  obtain ⟨front, back, he, _⟩ := List.lookup_eq_some_iff.mp h
  rw [he]
  exact List.mem_append_right _ List.mem_cons_self

theorem nodup_append {register : Register α} {id : BundleId} (value : α)
    (h : ¬ register.contains id = true) :
    ((register.entries ++ [(id, value)]).map Prod.fst).Nodup := by
  rw [contains_iff] at h
  rw [List.map_append, List.nodup_append]
  refine ⟨register.nodup, by simp, ?_⟩
  intro a ha b hb hab
  have hb' : b = id := by simpa using hb
  subst hb'
  subst hab
  exact h ha

/-- Makes an entry for an id unless it has one. -/
def add (register : Register α) (id : BundleId) (value : α) : Register α :=
  if h : register.contains id = true then register
  else ⟨register.entries ++ [(id, value)], nodup_append value h⟩

theorem get?_empty (id : BundleId) : (empty : Register α).get? id = none := rfl

theorem get?_add (register : Register α) (id other : BundleId) (value : α) :
    (register.add id value).get? other =
      if other = id ∧ register.get? id = none then some value else register.get? other := by
  unfold add
  cases h : register.get? id with
  | some found => simp [contains, h]
  | none =>
    simp only [contains, h, Option.isSome_none, Bool.false_eq_true, dite_false, and_true]
    unfold get? at h ⊢
    rw [List.lookup_append]
    by_cases hid : other = id
    · subst hid
      simp [h]
    · have hne : (other == id) = false := by simpa using hid
      simp [List.lookup_cons, hid, hne]

theorem contains_add (register : Register α) (id other : BundleId) (value : α) :
    (register.add id value).contains other = true ↔ other = id ∨ register.contains other = true := by
  unfold contains
  rw [get?_add]
  by_cases hid : other = id
  · subst hid
    cases register.get? other <;> simp
  · simp [hid]

theorem ids_add {register : Register α} {id : BundleId} (value : α)
    (h : ¬ register.contains id = true) : (register.add id value).ids = register.ids ++ [id] := by
  rw [add, dif_neg h, ids, List.map_append]
  rfl

theorem get?_add_self {register : Register α} {id : BundleId} (value : α)
    (h : ¬ register.contains id = true) : (register.add id value).get? id = some value := by
  have hnone : register.get? id = none := by simpa [contains] using h
  simp [get?_add, hnone]

/-- What is entered for an id stays. -/
theorem get?_add_of_some {register : Register α} {id other : BundleId} {value found : α}
    (h : register.get? other = some found) : (register.add id value).get? other = some found := by
  rw [get?_add]
  split
  · rename_i h'
    rw [← h'.1, h] at h'
    simp at h'
  · exact h

end Register

end Provenance
