import Mathlib.Data.List.Nodup
import Provenance.Proofs.Moments
import Provenance.Replay.Plan
import Provenance.Store.Codec

/-!
# Written values are read back

Contents, worksheets, bundles and plans are written as JSON and read from it.  A value may be handed
over with its members in the order in which they are written, or with all objects in canonical form;
an `Arrangement` is either.  `Decodes` says that a JSON value is read as something in every
arrangement, and goes from members to the records that hold them: there is one lemma for each kind of
member and one for each record.

* `Record.of?_object`: what a record gives of an object without repeated keys.
* `Bundle.decodes`, `Contents.decodes` and so on: each record is read back.
* `Json.RoundTrips`: reading undoes writing, and what was read stays what it is when it is written and
  read again.
-/

namespace Provenance

namespace Json

variable {α : Type}

/-! ### Objects without repeated keys -/

/-- The keys of a member list. -/
def keysOf (members : List (String × Json)) : List String :=
  members.map Prod.fst

theorem find?_eq_none_of_not_mem {key : String} {members : List (String × Json)}
    (h : key ∉ keysOf members) : find? key members = none := by
  induction members with
  | nil => rfl
  | cons head rest ih =>
      have hne : head.1 ≠ key := fun heq => h (heq ▸ List.mem_cons_self)
      rw [find?, if_neg hne, ih fun hmem => h (List.mem_cons_of_mem _ hmem)]

theorem find?_append (key : String) (front back : List (String × Json)) :
    find? key (front ++ back) = (find? key front).or (find? key back) := by
  induction front with
  | nil => rfl
  | cons head rest ih =>
      rw [List.cons_append, find?, find?, ih]
      split <;> rfl

theorem find?_filter_of_key (keep : String → Bool) {key : String} (hkey : keep key = true)
    (members : List (String × Json)) :
    find? key (members.filter fun member => keep member.1) = find? key members := by
  induction members with
  | nil => rfl
  | cons head rest ih =>
      rw [List.filter_cons]
      by_cases hk : head.1 = key
      · rw [if_pos (hk ▸ hkey), find?, find?, if_pos hk, if_pos hk]
      · rw [find?, if_neg hk, ← ih]
        split
        · rw [find?, if_neg hk]
        · rfl

theorem filter_key_of_find? {key : String} {value : Json} {members : List (String × Json)}
    (hn : (keysOf members).Nodup) (h : find? key members = some value) :
    (members.filter fun member => member.1 = key) = [(key, value)] := by
  induction members with
  | nil => cases h
  | cons head rest ih =>
      obtain ⟨hhead, hrest⟩ := List.nodup_cons.mp hn
      rw [find?] at h
      split at h
      · rename_i hk
        cases h
        subst hk
        have hnone : (rest.filter fun member => member.1 = head.1) = [] := by
          refine List.filter_eq_nil_iff.mpr fun member hmem heq => hhead ?_
          exact List.mem_map.mpr ⟨member, hmem, of_decide_eq_true heq⟩
        rw [List.filter_cons, if_pos (decide_eq_true rfl), hnone]
      · rename_i hk
        rw [List.filter_cons_of_neg (by simpa using hk), ih hrest h]

theorem nodup_of_membersCanonical {members : List (String × Json)}
    (h : membersCanonical members = true) : (keysOf members).Nodup := by
  induction members with
  | nil => exact List.nodup_nil
  | cons head rest ih =>
      obtain ⟨_, hlt, hrest⟩ := membersCanonical_cons.mp h
      refine List.nodup_cons.mpr ⟨fun hmem => ?_, ih hrest⟩
      obtain ⟨member, hmember, hkey⟩ := List.mem_map.mp hmem
      exact String.lt_irrefl member.1 (hkey ▸ hlt member hmember)

theorem canonicalizeItems_eq_map (items : List Json) :
    canonicalizeItems items = items.map canonicalize := by
  induction items with
  | nil => rfl
  | cons item rest ih => rw [canonicalizeItems, ih, List.map_cons]

/-- The canonical form of an object has the same members where no key is repeated. -/
theorem find?_canonicalizeMembers {members : List (String × Json)} (hn : (keysOf members).Nodup)
    (key : String) :
    find? key (canonicalizeMembers members) = (find? key members).map canonicalize := by
  induction members generalizing key with
  | nil => rfl
  | cons head rest ih =>
      obtain ⟨hhead, hrest⟩ := List.nodup_cons.mp hn
      have hnone : find? head.1 (canonicalizeMembers rest) = none := by
        rw [ih hrest head.1, find?_eq_none_of_not_mem hhead]
        rfl
      rw [canonicalizeMembers, addMember, hnone, find?]
      simp only [find?_putMember, ih hrest]
      split <;> rfl

/-! ### Arrangements -/

/-- A way to hand a value over: objects may be put into canonical form, where nothing is lost unless
a key is repeated; all else stays as it is. -/
structure Arrangement (arrange : Json → Json) : Prop where
  canonical : ∀ value, value.isCanonical = true → arrange value = value
  array : ∀ items, arrange (.array items) = .array (items.map arrange)
  object : ∀ members, (keysOf members).Nodup → ∃ arranged, arrange (.object members) = .object arranged ∧
    (keysOf arranged).Nodup ∧ ∀ key, find? key arranged = (find? key members).map arrange

theorem arrangement_id : Arrangement fun value => value where
  canonical _ _ := rfl
  array items := by rw [List.map_id']
  object members hn := ⟨members, rfl, hn, fun key => by rw [Option.map_id']⟩

theorem arrangement_canonicalize : Arrangement canonicalize where
  canonical := canonicalize_of_isCanonical
  array items := by rw [canonicalize, canonicalizeItems_eq_map]
  object members hn :=
    ⟨canonicalizeMembers members, by rw [canonicalize],
      nodup_of_membersCanonical (membersCanonical_canonicalizeMembers members),
      find?_canonicalizeMembers hn⟩

/-- However a value is arranged, it is read as `a`. -/
def Decodes (read? : Json → Option α) (value : Json) (a : α) : Prop :=
  ∀ arrange, Arrangement arrange → read? (arrange value) = some a

theorem decodes_of_isCanonical {read? : Json → Option α} {value : Json} {a : α}
    (hc : value.isCanonical = true) (h : read? value = some a) : Decodes read? value a := by
  intro arrange ha
  rw [ha.canonical value hc, h]

theorem decodes_string (text : String) : Decodes string? (.string text) text :=
  decodes_of_isCanonical rfl rfl

theorem decodes_bool (value : Bool) : Decodes bool? (.bool value) value :=
  decodes_of_isCanonical rfl rfl

theorem decodes_ofString? (text : Option String) :
    Decodes (nullable? string?) (.ofString? text) text := by
  cases text with
  | none => exact decodes_of_isCanonical rfl rfl
  | some text => exact decodes_of_isCanonical rfl rfl

theorem decodes_list {read? : Json → Option α} {write : α → Json}
    (h : ∀ a, Decodes read? (write a) a) (as : List α) :
    Decodes (list? read?) (.array (as.map write)) as := by
  intro arrange ha
  rw [ha.array, list?, List.map_map]
  induction as with
  | nil => rfl
  | cons a as ih => rw [List.map_cons, List.mapM_cons, Function.comp_apply, h a arrange ha, ih]; rfl

/-! ### Round trips -/

/-- Reading undoes writing, also where objects were put into canonical form in between; and whatever
was read is read again when it was written. -/
structure RoundTrips (write : α → Json) (read? : Json → Option α) : Prop where
  written : ∀ a, read? (write a) = some a
  sorted : ∀ a, read? (canonicalize (write a)) = some a
  reread : ∀ value a, read? value = some a → read? (write a) = read? value

theorem roundTrips_of_decodes {write : α → Json} {read? : Json → Option α}
    (h : ∀ a, Decodes read? (write a) a) : RoundTrips write read? where
  written a := h a _ arrangement_id
  sorted a := h a _ arrangement_canonicalize
  reread value a hread := by rw [hread, h a _ arrangement_id]

end Json

open Json

/-! ### Records -/

namespace Record

variable {α : Type}

/-- A record gives what an object without repeated keys has under its names. -/
theorem of?_object (names : List String) {members : List (String × Json)}
    (h : (keysOf members).Nodup) :
    ∃ record, of? names (.object members) = some record ∧
      ∀ key ∈ names, Json.find? key record.given = Json.find? key members := by
  refine ⟨_, if_pos (h.sublist (List.filter_sublist.map _)), fun key hkey => ?_⟩
  exact find?_filter_of_key names.contains (by simpa using hkey) members

/-- What a record gives is what an object has that was arranged. -/
def Gives (record : Record) (names : List String) (members : List (String × Json))
    (arrange : Json → Json) : Prop :=
  ∀ key ∈ names, Json.find? key record.given = (Json.find? key members).map arrange

/-- A record is read back if it is from whatever gives its members. -/
theorem decodes_object (names : List String) {members : List (String × Json)}
    {read? : Json → Option α} {a : α} (hn : (keysOf members).Nodup)
    (h : ∀ arrange record value, Arrangement arrange → of? names value = some record →
      record.Gives names members arrange → read? value = some a) :
    Decodes read? (.object members) a := by
  intro arrange ha
  obtain ⟨arranged, harranged, hnodup, hfind⟩ := ha.object members hn
  obtain ⟨record, hrecord, hgiven⟩ := of?_object names hnodup
  refine h arrange record _ ha (harranged ▸ hrecord) fun key hkey => ?_
  rw [hgiven key hkey, hfind key]

namespace Gives

variable {record : Record} {names : List String} {members : List (String × Json)}
  {arrange : Json → Json} {value : Json} {read? : Json → Option α} {a : α}

theorem required (h : record.Gives names members arrange) (ha : Arrangement arrange)
    {key : String} (hkey : key ∈ names) (hfind : Json.find? key members = some value)
    (hd : Decodes read? value a) : record.required? key read? = some a := by
  rw [required?, h key hkey, hfind]
  exact hd arrange ha

theorem optional (h : record.Gives names members arrange) (ha : Arrangement arrange)
    {key : String} (hkey : key ∈ names) (hfind : Json.find? key members = some value)
    (hd : Decodes read? value a) (default : α) : record.optional? key default read? = some a := by
  rw [optional?, h key hkey, hfind]
  exact hd arrange ha

/-- A member that is left out when it is absent. -/
theorem omissible (h : record.Gives names members arrange) (ha : Arrangement arrange)
    {key : String} (hkey : key ∈ names) {text : Option String}
    (hfind : Json.find? key members = text.map .string) :
    record.optional? key none (nullable? string?) = some text := by
  cases text with
  | none =>
      rw [optional?, h key hkey, hfind]
      rfl
  | some text => exact h.optional ha hkey hfind (decodes_ofString? (some text)) none

end Gives

end Record

/-! ### Bundles -/

theorem Timestamp.decodes (t : Timestamp) : Decodes ofJson? t.toJson t := by
  refine decodes_of_isCanonical rfl ?_
  rw [ofJson?, toJson, string?, Option.bind_some, read?_text]

theorem Timestamp.decodes_nullable (t : Option Timestamp) :
    Decodes (nullable? ofJson?) ((t.map toJson).getD .null) t := by
  cases t with
  | none => exact decodes_of_isCanonical rfl rfl
  | some t =>
      refine decodes_of_isCanonical rfl ?_
      have hread := t.decodes _ arrangement_id
      simp only [toJson] at hread
      simp only [Option.map_some, Option.getD_some, toJson, nullable?, hread]

theorem BundleKind.decodes (kind : BundleKind) : Decodes ofJson? kind.toJson kind :=
  decodes_of_isCanonical rfl (ofName?_name kind)

theorem BundleState.decodes (state : BundleState) : Decodes ofJson? state.toJson state :=
  decodes_of_isCanonical rfl (congrArg some (ofName_name state))

theorem Metadata.decodes (metadata : Metadata) : Decodes ofJson? metadata.toJson metadata :=
  decodes_of_isCanonical (by rw [toJson, isCanonical]; exact metadata.canonical)
    metadata.ofJson?_toJson

theorem Dependency.decodes (dependency : Dependency) :
    Decodes ofJson? dependency.toJson dependency := by
  refine Record.decodes_object memberNames (by decide : memberNames.Nodup) ?_
  intro arrange record value ha hrecord hgives
  have hparent := hgives.required ha (show "parent_id" ∈ memberNames by decide) rfl
    (decodes_string dependency.parentId)
  have hpath := hgives.optional ha (show "parent_path" ∈ memberNames by decide) rfl
    (decodes_string dependency.parentPath) ""
  have hchild := hgives.optional ha (show "child_id" ∈ memberNames by decide) rfl
    (decodes_string dependency.childId) ""
  have hmount := hgives.required ha (show "child_path" ∈ memberNames by decide) rfl
    (decodes_string dependency.childPath)
  rw [ofJson?, hrecord]
  simp only [Option.bind_eq_bind, Option.bind_some, hparent, hpath, hchild, hmount]
  rfl

theorem DependencyKey.decodes (key : DependencyKey) : Decodes ofJson? key.toJson key := by
  refine Record.decodes_object memberNames (by decide : memberNames.Nodup) ?_
  intro arrange record value ha hrecord hgives
  have hparent := hgives.required ha (show "parent_id" ∈ memberNames by decide) rfl
    (decodes_string key.parentId)
  have hmount := hgives.required ha (show "child_path" ∈ memberNames by decide) rfl
    (decodes_string key.childPath)
  rw [ofJson?, hrecord]
  simp only [Option.bind_eq_bind, Option.bind_some, hparent, hmount]
  rfl

namespace Bundle

/-- A member that may be left out is found under its own key only. -/
theorem find?_optionalMember (name key : String) (text : Option String) :
    Json.find? key (optionalMember name text) = if name = key then text.map .string else none := by
  cases text with
  | none => rw [optionalMember, Json.find?, Option.map_none, ite_self]
  | some text => rw [optionalMember, Json.find?, Json.find?, Option.map_some]

theorem keysOf_optionalMember (name : String) (text : Option String) :
    (keysOf (optionalMember name text)).Sublist [name] := by
  cases text with
  | none => exact List.nil_sublist _
  | some text => exact List.Sublist.refl _

theorem find?_between {key : String} {value : Json} {middle : List (String × Json)}
    (front back : Option String) (hkey : "id" ≠ key) (h : Json.find? key middle = some value) :
    Json.find? key (optionalMember "id" front ++ middle ++ optionalMember "state_details" back) =
      some value := by
  rw [Json.find?_append, Json.find?_append, find?_optionalMember, if_neg hkey, Option.none_or, h,
    Option.some_or]

theorem find?_front {middle : List (String × Json)} (front back : Option String)
    (h : Json.find? "id" middle = none) :
    Json.find? "id" (optionalMember "id" front ++ middle ++ optionalMember "state_details" back) =
      front.map .string := by
  rw [Json.find?_append, Json.find?_append, find?_optionalMember, if_pos rfl, h,
    find?_optionalMember, if_neg (by decide), Option.or_none, Option.or_none]

theorem find?_back {middle : List (String × Json)} (front back : Option String)
    (h : Json.find? "state_details" middle = none) :
    Json.find? "state_details"
        (optionalMember "id" front ++ middle ++ optionalMember "state_details" back) =
      back.map .string := by
  rw [Json.find?_append, Json.find?_append, find?_optionalMember, if_neg (by decide), h,
    find?_optionalMember, if_pos rfl, Option.or_none, Option.none_or]

/-- The keys are in their order, except that the first and the last may be missing. -/
theorem keysOf_between (front back : Option String) (middle : List (String × Json)) :
    (keysOf (optionalMember "id" front ++ middle ++ optionalMember "state_details" back)).Sublist
      (["id"] ++ keysOf middle ++ ["state_details"]) := by
  rw [keysOf, List.map_append, List.map_append]
  exact ((keysOf_optionalMember "id" front).append (List.Sublist.refl _)).append
    (keysOf_optionalMember "state_details" back)

theorem decodes (bundle : Bundle) : Decodes ofJson? bundle.toJson bundle := by
  refine Record.decodes_object memberNames
    ((by decide : memberNames.Nodup).sublist (keysOf_between _ _ _)) ?_
  intro arrange record value ha hrecord hgives
  have hid := hgives.omissible ha (show "id" ∈ memberNames by decide) (find?_front _ _ rfl)
  have hkind := hgives.required ha (show "bundle_type" ∈ memberNames by decide)
    (find?_between _ _ (by decide) rfl) bundle.kind.decodes
  have howner := hgives.optional ha (show "owner_id" ∈ memberNames by decide)
    (find?_between _ _ (by decide) rfl) (decodes_ofString? bundle.ownerId) none
  have hcommand := hgives.optional ha (show "command" ∈ memberNames by decide)
    (find?_between _ _ (by decide) rfl) (decodes_ofString? bundle.command) none
  have hhash := hgives.optional ha (show "data_hash" ∈ memberNames by decide)
    (find?_between _ _ (by decide) rfl) (decodes_ofString? bundle.dataHash) none
  have hstate := hgives.optional ha (show "state" ∈ memberNames by decide)
    (find?_between _ _ (by decide) rfl) bundle.state.decodes .created
  have hfrozen := hgives.optional ha (show "frozen" ∈ memberNames by decide)
    (find?_between _ _ (by decide) rfl) (Timestamp.decodes_nullable bundle.frozen) none
  have hanonymous := hgives.optional ha (show "is_anonymous" ∈ memberNames by decide)
    (find?_between _ _ (by decide) rfl) (decodes_bool bundle.isAnonymous) false
  have hmetadata := hgives.optional ha (show "metadata" ∈ memberNames by decide)
    (find?_between _ _ (by decide) rfl) bundle.metadata.decodes .empty
  have hdependencies := hgives.optional ha (show "dependencies" ∈ memberNames by decide)
    (find?_between _ _ (by decide) rfl) (decodes_list Dependency.decodes bundle.dependencies) []
  have hdetails := hgives.omissible ha (show "state_details" ∈ memberNames by decide)
    (find?_back _ _ rfl)
  rw [ofJson?, hrecord]
  simp only [Option.bind_eq_bind, Option.bind_some, hid, hkind, howner, hcommand, hhash, hstate,
    hfrozen, hanonymous, hmetadata, hdependencies, hdetails]
  rfl

end Bundle

/-! ### Worksheets -/

namespace WorksheetItem

/-- An item is read from its tag and its other member. -/
theorem decodes_tagged {tag name text : String} {item : WorksheetItem} (hname : name ≠ "type")
    (h : ∀ members, (keysOf members).Nodup → Json.find? name members = some (.string text) →
      ofTagged? tag (.object members) = some item) :
    Decodes ofJson? (.object [("type", .string tag), (name, .string text)]) item := by
  intro arrange ha
  have hkeys : (keysOf [("type", .string tag), (name, .string text)]).Nodup := by
    refine List.nodup_cons.mpr ⟨fun hmem => hname ?_, List.nodup_singleton _⟩
    exact (List.mem_singleton.mp hmem).symm
  obtain ⟨arranged, harranged, hn, hfind⟩ := ha.object _ hkeys
  have hstring : ∀ text, arrange (.string text) = .string text :=
    fun text => ha.canonical _ rfl
  have htype : Json.find? "type" arranged = some (.string tag) := by
    rw [hfind, Json.find?, if_pos rfl, Option.map_some, hstring]
  have hvalue : Json.find? name arranged = some (.string text) := by
    rw [hfind, Json.find?, if_neg hname.symm, Json.find?, if_pos rfl, Option.map_some, hstring]
  rw [harranged, ofJson?, filter_key_of_find? hn htype]
  refine h _ (hn.sublist (List.filter_sublist.map _)) ?_
  rw [find?_filter_ne, if_neg hname, hvalue]

theorem decodes (item : WorksheetItem) : Decodes ofJson? item.toJson item := by
  cases item with
  | bundle id =>
      refine decodes_tagged (by decide) fun members hn hfind => ?_
      obtain ⟨record, hrecord, hgiven⟩ := Record.of?_object ["bundle_id"] hn
      rw [ofTagged?, if_pos rfl, hrecord, Option.bind_some, Record.required?,
        hgiven _ (List.mem_singleton_self _), hfind]
      rfl
  | markup value | directive value =>
      refine decodes_tagged (by decide) fun members hn hfind => ?_
      obtain ⟨record, hrecord, hgiven⟩ := Record.of?_object ["value"] hn
      rw [ofTagged?, if_neg (by decide), hrecord, Option.bind_some, Record.required?,
        hgiven _ (List.mem_singleton_self _), hfind]
      rfl
  | other value =>
      refine decodes_tagged (by decide) fun members hn hfind => ?_
      obtain ⟨record, hrecord, hgiven⟩ := Record.of?_object ["value"] hn
      rw [ofTagged?, if_neg (by decide), hrecord, Option.bind_some, Record.optional?,
        hgiven _ (List.mem_singleton_self _), hfind]
      rfl

end WorksheetItem

theorem WorksheetSummary.decodes (summary : WorksheetSummary) :
    Decodes ofJson? summary.toJson summary := by
  refine Record.decodes_object memberNames (by decide : memberNames.Nodup) ?_
  intro arrange record value ha hrecord hgives
  have hid := hgives.required ha (show "id" ∈ memberNames by decide) rfl
    (decodes_string summary.id)
  have hname := hgives.required ha (show "name" ∈ memberNames by decide) rfl
    (decodes_string summary.name)
  have htitle := hgives.optional ha (show "title" ∈ memberNames by decide) rfl
    (decodes_ofString? summary.title) none
  rw [ofJson?, hrecord]
  simp only [Option.bind_eq_bind, Option.bind_some, hid, hname, htitle]
  rfl

theorem Worksheet.decodes (worksheet : Worksheet) : Decodes ofJson? worksheet.toJson worksheet := by
  refine Record.decodes_object memberNames (by decide : memberNames.Nodup) ?_
  intro arrange record value ha hrecord hgives
  have hid := hgives.required ha (show "id" ∈ memberNames by decide) rfl
    (decodes_string worksheet.id)
  have hname := hgives.required ha (show "name" ∈ memberNames by decide) rfl
    (decodes_string worksheet.name)
  have htitle := hgives.optional ha (show "title" ∈ memberNames by decide) rfl
    (decodes_ofString? worksheet.title) none
  have hitems := hgives.optional ha (show "items" ∈ memberNames by decide) rfl
    (decodes_list WorksheetItem.decodes worksheet.items) []
  rw [ofJson?, hrecord]
  simp only [Option.bind_eq_bind, Option.bind_some, hid, hname, htitle, hitems]
  rfl

/-! ### Contents and plans -/

theorem Contents.decodes (contents : Contents) : Decodes ofJson? contents.toJson contents := by
  refine Record.decodes_object memberNames (by decide : memberNames.Nodup) ?_
  intro arrange record value ha hrecord hgives
  have howner := hgives.optional ha (show "owner_id" ∈ memberNames by decide) rfl
    (decodes_ofString? contents.ownerId) none
  have hbundles := hgives.optional ha (show "bundles" ∈ memberNames by decide) rfl
    (decodes_list Bundle.decodes contents.bundles) []
  have hworksheets := hgives.optional ha (show "worksheets" ∈ memberNames by decide) rfl
    (decodes_list Worksheet.decodes contents.worksheets) []
  rw [ofJson?, hrecord]
  simp only [Option.bind_eq_bind, Option.bind_some, howner, hbundles, hworksheets]
  rfl

theorem PlanEntry.decodes (entry : PlanEntry) : Decodes ofJson? entry.toJson entry := by
  refine Record.decodes_object memberNames (by decide : memberNames.Nodup) ?_
  intro arrange record value ha hrecord hgives
  have hold := hgives.required ha (show "old" ∈ memberNames by decide) rfl entry.old.decodes
  have hnew := hgives.required ha (show "new" ∈ memberNames by decide) rfl entry.new.decodes
  rw [ofJson?, hrecord]
  simp only [Option.bind_eq_bind, Option.bind_some, hold, hnew]
  rfl

theorem Plan.decodes (plan : Plan) : Decodes ofJson? (toJson plan) plan :=
  decodes_list PlanEntry.decodes plan

/-- **Decoding undoes encoding** for the contents of a store and all that is in them, and for plans. -/
theorem Contents.formats_roundTrip :
    RoundTrips toJson ofJson? ∧ RoundTrips Bundle.toJson Bundle.ofJson? ∧
      RoundTrips Worksheet.toJson Worksheet.ofJson? ∧
      RoundTrips WorksheetItem.toJson WorksheetItem.ofJson? ∧
      RoundTrips WorksheetSummary.toJson WorksheetSummary.ofJson? ∧
      RoundTrips Dependency.toJson Dependency.ofJson? ∧
      RoundTrips DependencyKey.toJson DependencyKey.ofJson? ∧
      RoundTrips Plan.toJson Plan.ofJson? := by
  exact ⟨roundTrips_of_decodes decodes, roundTrips_of_decodes Bundle.decodes,
    roundTrips_of_decodes Worksheet.decodes, roundTrips_of_decodes WorksheetItem.decodes,
    roundTrips_of_decodes WorksheetSummary.decodes, roundTrips_of_decodes Dependency.decodes,
    roundTrips_of_decodes DependencyKey.decodes, roundTrips_of_decodes Plan.decodes⟩

end Provenance
