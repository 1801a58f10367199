import Provenance.Proofs.Limits

/-!
# Stored contents

The shape that is wanted of contents knows all that is written of them, and so their text is read back
if it is legible and nests no deeper than is allowed.  Only metadata can have numbers and can nest
deeply.

* `Contents.covers_toJson`: nothing that is written is skipped.
* `Contents.within_toJson`: what nests and what is counted in contents is in their metadata.
* `Contents.load?_save`: contents are read back exactly if their metadata do not nest too deeply.
-/

namespace Provenance

open Json

/-! ### Nothing is skipped -/

namespace Json

theorem Shape.find?_map {names : List String} {key : String} (wanted : String → Shape)
    (h : key ∈ names) :
    Shape.find? key (names.map fun name => (name, wanted name)) = some (wanted key) := by
  induction names with
  | nil => cases h
  | cons name names ih =>
      rw [List.map_cons, Shape.find?]
      by_cases hname : name = key
      · rw [if_pos hname, hname]
      · rw [if_neg hname, ih ((List.mem_cons.mp h).resolve_left (Ne.symm hname))]

/-- A record covers an object whose keys it knows. -/
theorem Shape.covers_record {names : List String} {members : List (String × Json)}
    (wanted : String → Shape) (hkeys : keysOf members ⊆ names)
    (hcovers : ∀ member ∈ members, (wanted member.1).Covers member.2) :
    (Shape.record (names.map fun name => (name, wanted name))).Covers (.object members) :=
  .record wanted (fun _ hm => Shape.find?_map wanted (hkeys (List.mem_map_of_mem hm))) hcovers

theorem Shape.covers_plain {names : List String} {members : List (String × Json)}
    (hkeys : keysOf members ⊆ names) :
    (Shape.record (names.map (·, .any))).Covers (.object members) :=
  Shape.covers_record (fun _ => .any) hkeys fun _ _ => .any _

theorem Shape.covers_list {α : Type} {shape : Shape} {write : α → Json}
    (h : ∀ a, shape.Covers (write a)) (as : List α) :
    (Shape.list shape).Covers (.array (as.map write)) := by
  refine .list fun value hv => ?_
  obtain ⟨a, _, rfl⟩ := List.mem_map.mp hv
  exact h a

end Json

theorem Dependency.covers_toJson (dependency : Dependency) : shape.Covers dependency.toJson :=
  Shape.covers_plain (List.Subset.refl memberNames)

theorem Worksheet.covers_toJson (worksheet : Worksheet) : shape.Covers worksheet.toJson :=
  Shape.covers_plain (List.Subset.refl memberNames)

theorem Bundle.covers_toJson (bundle : Bundle) : shape.Covers bundle.toJson := by
  have hplain : ∀ (name : String) (text : Option String), ∀ member ∈ optionalMember name text,
      name ≠ "dependencies" → (if member.1 = "dependencies" then Shape.list Dependency.shape
        else .any).Covers member.2 := by
    intro name text member hm hname
    cases text with
    | none => cases hm
    | some text =>
        rw [List.mem_singleton.mp hm, if_neg hname]
        exact .any _
  refine Shape.covers_record _ (List.Sublist.subset (keysOf_between _ _ _)) ?_
  rw [List.forall_mem_append, List.forall_mem_append]
  refine ⟨⟨fun member hm => hplain _ _ member hm (by decide), ?_⟩,
    fun member hm => hplain _ _ member hm (by decide)⟩
  simp only [List.forall_mem_cons]
  exact ⟨.any _, .any _, .any _, .any _, .any _, .any _, .any _, .any _,
    Shape.covers_list Dependency.covers_toJson _, List.forall_mem_nil _⟩

theorem Contents.covers_toJson (contents : Contents) : shape.Covers contents.toJson := by
  let wanted : String → Shape := fun name =>
    if name = "bundles" then .list Bundle.shape
    else if name = "worksheets" then .list Worksheet.shape
    else .any
  have hshape : shape = .record (memberNames.map fun name => (name, wanted name)) := rfl
  rw [hshape]
  refine Shape.covers_record wanted (List.Subset.refl memberNames) ?_
  simp only [List.forall_mem_cons]
  exact ⟨.any _, Shape.covers_list Bundle.covers_toJson _,
    Shape.covers_list Worksheet.covers_toJson _, List.forall_mem_nil _⟩

/-! ### Only metadata nest and count -/

section

variable {P : Number → Prop} {room : Nat}

theorem Json.within_ofString? (text : Option String) : (Json.ofString? text).Within P room := by
  cases text with
  | none => exact within_null
  | some text => exact within_string text

theorem Json.within_list {α : Type} {write : α → Json} {as : List α} :
    (Json.array (as.map write)).Within P (room + 1) ↔ ∀ a ∈ as, (write a).Within P room := by
  rw [within_array, List.forall_mem_map]

theorem Dependency.within_toJson (dependency : Dependency) :
    dependency.toJson.Within P (room + 1) := by
  refine within_object.mpr ?_
  simp only [List.forall_mem_cons]
  exact ⟨within_string _, within_string _, within_string _, within_string _, List.forall_mem_nil _⟩

theorem WorksheetItem.within_toJson (item : WorksheetItem) : item.toJson.Within P (room + 1) := by
  cases item <;> refine within_object.mpr ?_ <;> simp only [List.forall_mem_cons] <;>
    exact ⟨within_string _, within_string _, List.forall_mem_nil _⟩

theorem Worksheet.within_toJson (worksheet : Worksheet) : worksheet.toJson.Within P (room + 3) := by
  refine within_object.mpr ?_
  simp only [List.forall_mem_cons]
  exact ⟨within_string _, within_string _, within_ofString? _,
    within_list.mpr fun item _ => item.within_toJson, List.forall_mem_nil _⟩

theorem Bundle.within_toJson {bundle : Bundle} :
    bundle.toJson.Within P (room + 3) ↔ bundle.metadata.toJson.Within P (room + 2) := by
  have hoptional : ∀ (name : String) (text : Option String), ∀ member ∈ optionalMember name text,
      member.2.Within P (room + 2) := by
    intro name text member hm
    cases text with
    | none => cases hm
    | some text =>
        rw [List.mem_singleton.mp hm]
        exact within_string text
  have hfrozen : ((bundle.frozen.map Timestamp.toJson).getD .null).Within P (room + 2) := by
    cases bundle.frozen with
    | none => exact within_null
    | some t => exact within_string _
  have hdependencies : (Json.array (bundle.dependencies.map Dependency.toJson)).Within P (room + 2) :=
    within_list.mpr fun dependency _ => dependency.within_toJson
  rw [toJson, within_object, List.forall_mem_append, List.forall_mem_append]
  simp only [List.forall_mem_cons]
  constructor
  · rintro ⟨⟨_, _, _, _, _, _, _, _, hmetadata, _⟩, _⟩
    exact hmetadata
  · intro hmetadata
    exact ⟨⟨hoptional _ _, within_string _, within_ofString? _, within_ofString? _,
      within_ofString? _, within_string _, hfrozen, within_bool _, hmetadata, hdependencies,
      List.forall_mem_nil _⟩, hoptional _ _⟩

/-- **Contents are bounded** as far as their metadata are. -/
theorem Contents.within_toJson {contents : Contents} :
    contents.toJson.Within P (room + 5) ↔ contents.Fits P (room + 2) := by
  rw [toJson, within_object]
  simp only [List.forall_mem_cons]
  constructor
  · rintro ⟨_, hbundles, _⟩ bundle hb
    exact Bundle.within_toJson.mp (within_list.mp hbundles bundle hb)
  · intro hfits
    exact ⟨within_ofString? _, within_list.mpr fun bundle hb => Bundle.within_toJson.mpr (hfits bundle hb),
      within_list.mpr fun worksheet _ => worksheet.within_toJson,
      List.forall_mem_nil _⟩

end

/-! ### Reading what was written -/

namespace Contents

/-- Contents whose numbers are legible are read back if they do not nest too deeply. -/
theorem load?_save_eq {contents : Contents} (h : contents.toJson.Legible) :
    load? contents.save =
      if contents.toJson.nesting ≤ Json.maxNesting then some contents else none := by
  rw [load?, save, pretty, readShaped?_write .indented h contents.covers_toJson]
  split
  · exact contents.decodes _ arrangement_id
  · rfl

/-- **Contents are read back** if the numbers in their metadata are legible and they do not nest too
deeply. -/
theorem load?_save {contents : Contents} (h : contents.Fits Number.Legible Metadata.maxNesting) :
    load? contents.save = some contents := by
  have hwithin : contents.toJson.Within Number.Legible Json.maxNesting := within_toJson.mpr h
  rw [load?_save_eq hwithin.numbers, if_pos hwithin.nesting]

/-- Contents whose metadata have no numbers are read back if they do not nest too deeply. -/
theorem load?_save_of_plain {contents : Contents}
    (h : ∀ bundle ∈ contents.bundles, bundle.metadata.toJson.nesting ≤ Metadata.maxNesting ∧
      bundle.metadata.toJson.numbers = []) :
    load? contents.save = some contents :=
  load?_save fun bundle hb => ⟨(h bundle hb).1, fun _ hn => nomatch (h bundle hb).2 ▸ hn⟩

end Contents

end Provenance
