import Provenance.Proofs.Overrides

/-!
# Which value a key of a counterpart gets

The metadata of a counterpart is made in steps that read and write the same keys.  `Request.ruling`
says the same key by key: the first of a few rules that applies to a key decides about its value.

* `Bundle.get?_counterpart`: the steps decide as the rules do.
* `Bundle.counterpart_override_congr`: of what is requested, only the keys count that the kind of the
  bundle declares.
-/

namespace Provenance

namespace Request

/-- What a rule decides about a key: nothing if it does not apply, else the value, if there is to be
one. -/
abbrev Decision := Option (Option Json.Value)

/-- A declared key gets the value that is requested. -/
def requestedRule (request : Request) (kind : BundleKind) (key : String) : Decision :=
  if key ∈ kind.keys then (request.overrides.get? key).map some else none

/-- A key that the service computes is absent. -/
def computedRule (kind : BundleKind) (key : String) : Decision :=
  if key ∈ kind.generatedKeys then some none else none

/-- A run asks for the image that the old one was made with. -/
def imageRule (old : Bundle) (key : String) : Decision :=
  if old.kind = .run ∧ key = "request_docker_image" then
    ((old.metadata.text? "docker_image").filter (· ≠ "")).map fun image => some (.ofString image)
  else none

/-- The output gets the name that the request gives it, and any other bundle this name before its
own. -/
def nameRule (request : Request) (oldId : BundleId) (old : Bundle) (key : String) : Decision :=
  if key = "name" then
    request.outputName?.map fun name =>
      some (.ofString (if request.oldOutput = some oldId then name else name ++ "-" ++ old.name))
  else none

/-- The value of a key in the counterpart of an old bundle, by the first rule that applies; without
one it is the old value. -/
def ruling (request : Request) (oldId : BundleId) (old : Bundle) (key : String) :
    Option Json.Value :=
  (request.requestedRule old.kind key <|> computedRule old.kind key <|> imageRule old key <|>
    request.nameRule oldId old key).getD (old.metadata.get? key)

end Request

open Request

namespace BundleKind

theorem mem_generatedKeys {kind : BundleKind} {key : String} :
    key ∈ kind.generatedKeys ↔ ∃ field ∈ kind.fields, field.generated = true ∧ field.key = key := by
  constructor
  · intro h
    refine ⟨⟨key, true⟩, List.mem_append_right _ ?_, rfl, rfl⟩
    exact List.mem_map_of_mem h
  · rintro ⟨field, hf, hg, rfl⟩
    simp only [fields, List.mem_append, List.mem_map] at hf
    rcases hf with ⟨_, _, rfl⟩ | ⟨_, hk, rfl⟩
    · cases hg
    · exact hk

theorem mem_keys_of_mem_generatedKeys {kind : BundleKind} {key : String}
    (h : key ∈ kind.generatedKeys) : key ∈ kind.keys := by
  obtain ⟨field, hf, _, rfl⟩ := mem_generatedKeys.mp h
  exact List.mem_map_of_mem hf

end BundleKind

namespace Metadata

variable {request : Request} {key : String}

theorem text?_eq (metadata : Metadata) (key : String) :
    metadata.text? key = (metadata.get? key).bind fun value => value.1.string? := by
  rw [text?, ← get?_map_val, Option.bind_map]
  rfl

/-! ### The steps, key by key -/

theorem get?_foldl_of_none (h : request.overrides.get? key = none) (fields : List MetadataField)
    (metadata : Metadata) :
    (fields.foldl request.overrideField metadata).get? key =
      if ∃ field ∈ fields, field.generated = true ∧ field.key = key then none
      else metadata.get? key := by
  induction fields generalizing metadata with
  | nil => simp
  | cons field fields ih =>
      have hfield : (request.overrideField metadata field).get? key =
          if field.generated = true ∧ field.key = key then none else metadata.get? key := by
        unfold Request.overrideField
        by_cases hk : field.key = key
        · subst hk
          cases hg : field.generated <;> simp [h, get?_erase]
        · -- neither dropping nor putting in another key shows at this one
          have hk' : key ≠ field.key := Ne.symm hk
          cases hg : field.generated <;> cases request.overrides.get? field.key <;>
            simp [hk, hk', get?_erase, get?_insert]
      rw [List.foldl_cons, ih, hfield]
      by_cases hr : ∃ field ∈ fields, field.generated = true ∧ field.key = key <;>
        by_cases hf : field.generated = true ∧ field.key = key <;> simp [hr, hf]

theorem get?_foldl_fields (request : Request) (kind : BundleKind) (metadata : Metadata)
    (key : String) :
    (kind.fields.foldl request.overrideField metadata).get? key =
      (request.requestedRule kind key <|> computedRule kind key).getD (metadata.get? key) := by
  unfold requestedRule computedRule
  cases h : request.overrides.get? key with
  | some value =>
      rw [get?_foldl_overrideField h]
      by_cases hk : key ∈ kind.keys
      · have hkey : key ∈ kind.fields.map MetadataField.key := hk
        simp [hk, hkey]
      · have hkey : key ∉ kind.fields.map MetadataField.key := hk
        have hgenerated : key ∉ kind.generatedKeys :=
          fun hg => hk (BundleKind.mem_keys_of_mem_generatedKeys hg)
        simp only [if_neg hk, if_neg hkey, if_neg hgenerated]
        rfl
  | none =>
      rw [get?_foldl_of_none h]
      simp only [← BundleKind.mem_generatedKeys]
      by_cases hg : key ∈ kind.generatedKeys <;> simp [hg]

theorem get?_pinImage (old : Bundle) (metadata : Metadata)
    (h : metadata.text? "docker_image" = old.metadata.text? "docker_image") (key : String) :
    (metadata.pinImage old.kind).get? key = (imageRule old key).getD (metadata.get? key) := by
  unfold pinImage imageRule
  rw [h]
  by_cases hkind : old.kind = .run
  · cases old.metadata.text? "docker_image" with
    | none => simp [hkind]
    | some image =>
        by_cases himage : image = ""
        · simp [hkind, himage, Option.filter_some]
        · by_cases hkey : key = "request_docker_image"
          · simp [hkind, himage, hkey, get?_insert, Option.filter_some]
          · simp [hkind, himage, hkey, Ne.symm hkey, get?_insert]
  · simp [hkind]

theorem get?_rename (request : Request) (oldId : BundleId) (old : Bundle) (key : String) :
    (request.rename oldId old.name old.metadata).get? key =
      (request.nameRule oldId old key).getD (old.metadata.get? key) := by
  unfold rename nameFor? nameRule
  cases request.outputName? with
  | none => simp
  | some name =>
      by_cases hkey : key = "name"
      · simp [hkey, get?_insert, isOutput]
      · simp [hkey, Ne.symm hkey, get?_insert]

end Metadata

namespace Bundle

variable (request : Request) (oldId : BundleId) (old : Bundle) (dependencies : List Dependency)

/-- **The steps decide as the rules do**: each key of the counterpart has the value that the first
rule which applies to it gives. -/
theorem get?_counterpart (key : String) :
    (old.counterpart oldId dependencies request).metadata.get? key =
      request.ruling oldId old key := by
  have himage : (request.rename oldId old.name old.metadata).text? "docker_image" =
      old.metadata.text? "docker_image" := by
    rw [Metadata.text?_eq, Metadata.get?_rename, Metadata.text?_eq]
    rfl
  unfold counterpart ruling
  simp only [Metadata.get?_foldl_fields, Metadata.get?_pinImage old _ himage, Metadata.get?_rename]
  cases request.requestedRule old.kind key <;> cases computedRule old.kind key <;>
    cases imageRule old key <;> rfl

/-- Requests for keys that are not declared have no effect. -/
theorem counterpart_override_congr {overrides : Metadata}
    (h : ∀ key ∈ old.kind.keys, overrides.get? key = request.overrides.get? key) :
    old.counterpart oldId dependencies { request with overrides } =
      old.counterpart oldId dependencies request := by
  have hfold : ∀ metadata, old.kind.fields.foldl
      (overrideField { request with overrides }) metadata =
        old.kind.fields.foldl request.overrideField metadata := by
    intro metadata
    apply List.foldl_ext
    intro metadata field hf
    unfold overrideField
    simp only [h field.key (List.mem_map_of_mem hf)]
  unfold counterpart
  simp only [hfold]
  rfl

/-- **What a counterpart is made from.**  For every old bundle, its id, any dependencies and any
request: there is neither an id nor an explanation of the state, the dependencies are those given,
each key of the metadata has the value that the first rule which applies gives it, and everything
else is as in the old bundle.  Requests for keys that the kind does not declare have no effect. -/
theorem counterpart_follows_rules (request : Request) (oldId : BundleId) (old : Bundle)
    (dependencies : List Dependency) :
    let new := old.counterpart oldId dependencies request
    new = { old with
      id := none, stateDetails := none, dependencies := dependencies, metadata := new.metadata } ∧
    (∀ key, new.metadata.get? key = request.ruling oldId old key) ∧
    (∀ overrides : Metadata,
      (∀ key ∈ old.kind.keys, overrides.get? key = request.overrides.get? key) →
        old.counterpart oldId dependencies { request with overrides } = new) :=
  ⟨rfl, get?_counterpart request oldId old dependencies,
    fun _ h => counterpart_override_congr request oldId old dependencies h⟩

end Bundle

end Provenance
