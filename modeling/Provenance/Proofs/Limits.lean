import Provenance.Proofs.Encoding
import Provenance.Proofs.Legibility

/-!
# What is read is bounded

The reader lets a value nest only so deeply, and its integers have 64 bits.  Inside contents a piece of
metadata stands three containers deep, and so it has three fewer to itself.

`Json.Within` says how deeply a value nests and what holds of its numbers.

* `Json.within_readShaped?`: this holds of what is read.
* `Contents.fits_load?`: the metadata in contents that were read are like this.
-/

namespace Provenance

/-- An integer has 64 bits; a double is bounded as such. -/
def Number.Bounded : Number → Prop
  | .integer value => IsWord value
  | .double _ => True

theorem Numeral.bounded_of_number? {numeral : Numeral} {number : Number}
    (h : numeral.number? = some number) : number.Bounded := by
  have hdouble : ∀ {number : Number}, numeral.magnitude?.map
      (fun units => Number.double ⟨numeral.negative, units⟩) = some number → number.Bounded := by
    intro number hnumber
    obtain ⟨units, _, rfl⟩ := Option.map_eq_some_iff.mp hnumber
    trivial
  unfold number? at h
  dsimp only at h
  split at h
  · split at h
    · split at h
      · rename_i hn
        cases h
        show Number.IsWord _
        unfold Number.IsWord
        omega
      · exact hdouble h
    · split at h
      · rename_i hn
        cases h
        show Number.IsWord _
        unfold Number.IsWord
        have : Numeral.maxSignificand = mostOfBits 64 := rfl
        omega
      · exact hdouble h
  · exact hdouble h

namespace Json

variable {P : Number → Prop} {room : Nat} {value : Json}

/-- A value nests at most so many containers in one another, and of all numbers in it something
holds. -/
structure Within (P : Number → Prop) (room : Nat) (value : Json) : Prop where
  nesting : value.nesting ≤ room
  numbers : ∀ number ∈ value.numbers, P number

theorem Within.mono {more : Nat} (h : value.Within P room) (hle : room ≤ more) :
    value.Within P more :=
  ⟨Nat.le_trans h.nesting hle, h.numbers⟩

theorem within_string (text : String) : (Json.string text).Within P room :=
  ⟨Nat.zero_le _, List.forall_mem_nil _⟩

theorem within_null : Json.null.Within P room :=
  ⟨Nat.zero_le _, List.forall_mem_nil _⟩

theorem within_bool (value : Bool) : (Json.bool value).Within P room :=
  ⟨Nat.zero_le _, List.forall_mem_nil _⟩

theorem within_array {items : List Json} :
    (Json.array items).Within P (room + 1) ↔ ∀ item ∈ items, item.Within P room := by
  induction items with
  | nil =>
      exact ⟨fun _ => List.forall_mem_nil _,
        fun _ => ⟨Nat.succ_le_succ (Nat.zero_le _), List.forall_mem_nil _⟩⟩
  | cons item items ih =>
      rw [List.forall_mem_cons, ← ih]
      constructor
      · rintro ⟨hnesting, hnumbers⟩
        obtain ⟨hitem, hitems⟩ := Nat.max_le.mp (Nat.le_of_succ_le_succ hnesting)
        obtain ⟨hp, hps⟩ := List.forall_mem_append.mp hnumbers
        exact ⟨⟨hitem, hp⟩, ⟨Nat.succ_le_succ hitems, hps⟩⟩
      · rintro ⟨⟨hitem, hp⟩, ⟨hitems, hps⟩⟩
        exact ⟨Nat.succ_le_succ (Nat.max_le.mpr ⟨hitem, Nat.le_of_succ_le_succ hitems⟩),
          List.forall_mem_append.mpr ⟨hp, hps⟩⟩

theorem within_object {members : List (String × Json)} :
    (Json.object members).Within P (room + 1) ↔ ∀ member ∈ members, member.2.Within P room := by
  induction members with
  | nil =>
      exact ⟨fun _ => List.forall_mem_nil _,
        fun _ => ⟨Nat.succ_le_succ (Nat.zero_le _), List.forall_mem_nil _⟩⟩
  | cons member members ih =>
      rw [List.forall_mem_cons, ← ih]
      constructor
      · rintro ⟨hnesting, hnumbers⟩
        obtain ⟨hvalue, hmembers⟩ := Nat.max_le.mp (Nat.le_of_succ_le_succ hnesting)
        obtain ⟨hp, hps⟩ := List.forall_mem_append.mp hnumbers
        exact ⟨⟨hvalue, hp⟩, ⟨Nat.succ_le_succ hmembers, hps⟩⟩
      · rintro ⟨⟨hvalue, hp⟩, ⟨hmembers, hps⟩⟩
        exact ⟨Nat.succ_le_succ (Nat.max_le.mpr ⟨hvalue, Nat.le_of_succ_le_succ hmembers⟩),
          List.forall_mem_append.mpr ⟨hp, hps⟩⟩

/-! ### Canonical forms -/

theorem mem_addMember {key : String} {members : List (String × Json)} {member : String × Json}
    (h : member ∈ addMember key value members) : member = (key, value) ∨ member ∈ members := by
  unfold addMember at h
  split at h
  · exact .inr h
  · exact mem_putMember h

mutual

/-- The canonical form has nothing that was not there before. -/
theorem within_canonicalize : (value : Json) → ∀ {room : Nat}, value.Within P room →
    (canonicalize value).Within P room
  | .null, _, h | .bool _, _, h | .number _, _, h | .string _, _, h => by
      rwa [canonicalize]
  | .array items, room, h => by
      cases room with
      | zero => cases h.nesting
      | succ room =>
          rw [canonicalize, within_array]
          exact within_canonicalizeItems items (within_array.mp h)
  | .object members, room, h => by
      cases room with
      | zero => cases h.nesting
      | succ room =>
          rw [canonicalize, within_object]
          exact within_canonicalizeMembers members (within_object.mp h)

theorem within_canonicalizeItems : (items : List Json) → ∀ {room : Nat},
    (∀ item ∈ items, item.Within P room) → ∀ item ∈ canonicalizeItems items, item.Within P room
  | [], _, _ => List.forall_mem_nil _
  | item :: items, _, h => by
      rw [canonicalizeItems, List.forall_mem_cons]
      rw [List.forall_mem_cons] at h
      exact ⟨within_canonicalize item h.1, within_canonicalizeItems items h.2⟩

theorem within_canonicalizeMembers : (members : List (String × Json)) → ∀ {room : Nat},
    (∀ member ∈ members, member.2.Within P room) →
      ∀ member ∈ canonicalizeMembers members, member.2.Within P room
  | [], _, _ => List.forall_mem_nil _
  | (key, value) :: members, _, h => by
      rw [List.forall_mem_cons] at h
      intro member hm
      rcases mem_addMember hm with rfl | hm
      · exact within_canonicalize value h.1
      · exact within_canonicalizeMembers members h.2 member hm

end

/-! ### The reader -/

theorem within_word? {text rest : List Char} (h : word? text = some (value, rest)) :
    value.Within P room := by
  unfold word? at h
  split at h <;> cases h
  · exact within_null
  · exact within_bool true
  · exact within_bool false

mutual

theorem within_readValue : (fuel : Nat) → ∀ {room : Nat} {shape : Shape} {text rest : List Char}
    {value : Json}, readValue fuel room shape text = some (value, rest) →
    value.Within Number.Bounded room
  | fuel + 1, room, shape, text, rest, value, h => by
      rw [readValue] at h
      split at h
      · obtain ⟨found, _, hfound⟩ := Option.map_eq_some_iff.mp h
        cases hfound
        exact within_string _
      · cases room with
        | zero => cases h
        | succ room =>
            dsimp only at h
            split at h
            · cases h
              exact within_array.mpr (List.forall_mem_nil _)
            · obtain ⟨found, hread, hfound⟩ := Option.map_eq_some_iff.mp h
              cases hfound
              exact within_array.mpr (within_readItems fuel hread)
      · cases room with
        | zero => cases h
        | succ room =>
            dsimp only at h
            split at h
            · cases h
              exact within_object.mpr (List.forall_mem_nil _)
            · obtain ⟨found, hread, hfound⟩ := Option.map_eq_some_iff.mp h
              cases hfound
              exact within_object.mpr (within_readMembers fuel hread)
      · split at h
        · rename_i hword
          cases h
          exact within_word? hword
        · split at h
          · cases h
          · obtain ⟨number, hnumber, hfound⟩ := Option.map_eq_some_iff.mp h
            cases hfound
            refine ⟨Nat.zero_le _, fun other ho => ?_⟩
            rw [List.mem_singleton.mp ho]
            exact Numeral.bounded_of_number? hnumber

theorem within_readItems : (fuel : Nat) → ∀ {room : Nat} {shape : Shape} {text rest : List Char}
    {items : List Json}, readItems fuel room shape text = some (items, rest) →
    ∀ item ∈ items, item.Within Number.Bounded room
  | fuel + 1, room, shape, text, rest, items, h => by
      rw [readItems] at h
      split at h
      · cases h
      · rename_i item afterValue hvalue
        have hitem := within_readValue fuel hvalue
        split at h
        · obtain ⟨found, hread, hfound⟩ := Option.map_eq_some_iff.mp h
          cases hfound
          exact List.forall_mem_cons.mpr ⟨hitem, within_readItems fuel hread⟩
        · cases h
          exact List.forall_mem_singleton.mpr hitem
        · cases h

theorem within_readMembers : (fuel : Nat) → ∀ {room : Nat} {shape : Shape}
    {text rest : List Char} {members : List (String × Json)},
    readMembers fuel room shape text = some (members, rest) →
    ∀ member ∈ members, member.2.Within Number.Bounded room
  | fuel + 1, room, shape, text, rest, members, h => by
      rw [readMembers] at h
      split at h
      · cases h
      · split at h
        · cases h
        · rename_i key _ _ _ afterColon _
          -- the member is kept or skipped
          have hkept : ∀ kept afterValue, (match shape.ofMember? key with
              | some wanted => (readValue fuel room wanted afterColon).map
                  fun found => ([(key, found.1)], found.2)
              | none => (skipValue fuel afterColon).map fun rest => ([], rest)) =
                some (kept, afterValue) → ∀ member ∈ kept, member.2.Within Number.Bounded room := by
            intro kept afterValue hmember
            split at hmember
            · obtain ⟨found, hread, hfound⟩ := Option.map_eq_some_iff.mp hmember
              cases hfound
              exact List.forall_mem_singleton.mpr (within_readValue fuel hread)
            · obtain ⟨_, _, hfound⟩ := Option.map_eq_some_iff.mp hmember
              cases hfound
              exact List.forall_mem_nil _
          dsimp only at h
          split at h
          · cases h
          · rename_i kept afterValue hmember
            have hwithin := hkept kept afterValue hmember
            split at h
            · obtain ⟨found, hread, hfound⟩ := Option.map_eq_some_iff.mp h
              cases hfound
              exact List.forall_mem_append.mpr ⟨hwithin, within_readMembers fuel hread⟩
            · cases h
              exact hwithin
            · cases h

end

/-- **What is read is bounded.** -/
theorem within_readShaped? {shape : Shape} {text : String} (h : readShaped? shape text = some value) :
    value.Within Number.Bounded maxNesting := by
  rw [readShaped?] at h
  split at h
  · rename_i hread
    split at h <;> cases h
    exact within_readValue _ hread
  · cases h

end Json

/-! ### Records and lists -/

section

open Json

variable {P : Number → Prop} {room : Nat} {value : Json} {α : Type}

theorem Json.mem_of_find? {key : String} {members : List (String × Json)}
    (h : find? key members = some value) : (key, value) ∈ members := by
  induction members with
  | nil => cases h
  | cons member members ih =>
      rw [find?] at h
      split at h
      · rename_i hkey
        cases h
        exact hkey ▸ List.mem_cons_self
      · exact List.mem_cons_of_mem _ (ih h)

/-- What a record gives is a part of the value. -/
theorem Record.within_of? {names : List String} {record : Record}
    (h : of? names value = some record) (hw : value.Within P (room + 1)) {key : String}
    {found : Json} (hf : Json.find? key record.given = some found) : found.Within P room := by
  have hmem := mem_of_find? hf
  cases value with
  | object members =>
      rw [of?] at h
      split at h <;> cases h
      exact within_object.mp hw _ (List.mem_filter.mp hmem).1
  | array items =>
      rw [of?] at h
      split at h <;> cases h
      exact within_array.mp hw found (List.of_mem_zip hmem).2
  | null | bool _ | number _ | string _ => cases h

/-- What is in a list was read from a part of the value. -/
theorem Json.within_list? {read? : Json → Option α} {as : List α} (h : value.list? read? = some as)
    (hw : value.Within P (room + 1)) : ∀ a ∈ as, ∃ item, item.Within P room ∧ read? item = some a := by
  cases value with
  | array items =>
      rw [list?] at h
      have hitems := within_array.mp hw
      clear hw
      induction items generalizing as with
      | nil =>
          cases h
          exact List.forall_mem_nil _
      | cons item items ih =>
          rw [List.mapM_cons] at h
          obtain ⟨first, hfirst, h⟩ := Option.bind_eq_some_iff.mp h
          obtain ⟨others, hothers, h⟩ := Option.bind_eq_some_iff.mp h
          cases h
          rw [List.forall_mem_cons] at hitems ⊢
          exact ⟨⟨item, hitems.1, hfirst⟩, ih hothers hitems.2⟩
  | null | bool _ | number _ | string _ | object _ => cases h

end

/-! ### Contents -/

theorem Metadata.within_ofJson? {P : Number → Prop} {room : Nat} {value : Json} {metadata : Metadata}
    (h : ofJson? value = some metadata) (hw : value.Within P room) :
    metadata.toJson.Within P room := by
  cases value with
  | object members =>
      cases h
      have hcanonical := Json.within_canonicalize _ hw
      rwa [Json.canonicalize] at hcanonical
  | null | bool _ | number _ | string _ | array _ => cases h

theorem Metadata.within_empty {P : Number → Prop} {room : Nat} :
    Metadata.empty.toJson.Within P (room + 1) :=
  Json.within_object.mpr (List.forall_mem_nil _)

theorem Bundle.within_ofJson? {P : Number → Prop} {room : Nat} {value : Json} {bundle : Bundle}
    (h : ofJson? value = some bundle) (hw : value.Within P (room + 2)) :
    bundle.metadata.toJson.Within P (room + 1) := by
  simp only [ofJson?, Option.bind_eq_bind, Option.bind_eq_some_iff] at h
  obtain ⟨record, hrecord, _, _, _, _, _, _, _, _, _, _, _, _, _, _, _, _, metadata, hmetadata, _, _,
    _, _, h⟩ := h
  cases h
  show metadata.toJson.Within P (room + 1)
  rw [Record.optional?] at hmetadata
  split at hmetadata
  · rename_i found hfound
    exact Metadata.within_ofJson? hmetadata (Record.within_of? hrecord hw hfound)
  · cases hmetadata
    exact Metadata.within_empty

/-- The metadata of all bundles nest at most so many containers in one another, and of all numbers in
them something holds. -/
def Contents.Fits (P : Number → Prop) (room : Nat) (contents : Contents) : Prop :=
  ∀ bundle ∈ contents.bundles, bundle.metadata.toJson.Within P room

theorem Contents.fits_ofJson? {P : Number → Prop} {room : Nat} {value : Json} {contents : Contents}
    (h : ofJson? value = some contents) (hw : value.Within P (room + 4)) :
    contents.Fits P (room + 1) := by
  simp only [ofJson?, Option.bind_eq_bind, Option.bind_eq_some_iff] at h
  obtain ⟨record, hrecord, _, _, bundles, hbundles, _, _, h⟩ := h
  cases h
  intro bundle hb
  rw [Record.optional?] at hbundles
  split at hbundles
  · rename_i found hfound
    have hlist : found.Within P (room + 3) := Record.within_of? hrecord hw hfound
    obtain ⟨item, hitem, hread⟩ := Json.within_list? hbundles hlist bundle hb
    exact Bundle.within_ofJson? hread hitem
  · cases hbundles
    cases hb

/-- The most containers that may be nested in one another in the metadata of a stored bundle. -/
def Metadata.maxNesting : Nat :=
  Json.maxNesting - 3

/-- **Contents that were read** have metadata that are bounded. -/
theorem Contents.fits_load? {text : String} {contents : Contents} (h : load? text = some contents) :
    contents.Fits Number.Bounded Metadata.maxNesting := by
  obtain ⟨value, hvalue, h⟩ := Option.bind_eq_some_iff.mp h
  exact fits_ofJson? h (Json.within_readShaped? hvalue)

end Provenance
