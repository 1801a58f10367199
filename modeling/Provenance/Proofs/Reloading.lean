import Provenance.CommandLine.Execution
import Provenance.Proofs.Phases
import Provenance.Proofs.Retrying
import Provenance.Proofs.Storage

/-!
# A store that was written back can be read again

A replay from the command line takes metadata from two sources: from the bundles that the store file
has, and from the arguments.  The first stand as deep in the file that is written back as in the file
that was read.  The second come from texts of their own, in which a value may nest as deeply as a
whole file, and so a value that is accepted can be too deep for the file.

* `Bundle.within_counterpart`: a counterpart has what the old bundle has, what is requested, and names.
* `Request.replay_fits`: a replay keeps the metadata of all bundles within bounds.
* `Arguments.execute_reloads`: the file that is written back is read as what was written, unless it
  nests too deeply; and it does not if the values among the arguments do not.
-/

namespace Provenance

open Dialogue Json

variable {P : Number → Prop} {room : Nat}

/-! ### Metadata of counterparts -/

namespace Metadata

variable {metadata : Metadata}

theorem within_insert {key : String} {value : Json.Value}
    (h : metadata.toJson.Within P (room + 1)) (hv : value.1.Within P room) :
    (metadata.insert key value).toJson.Within P (room + 1) := by
  refine within_object.mpr fun member hm => ?_
  rcases mem_putMember hm with rfl | hm
  · exact hv
  · exact within_object.mp h member hm

theorem within_erase {key : String} (h : metadata.toJson.Within P (room + 1)) :
    (metadata.erase key).toJson.Within P (room + 1) :=
  within_object.mpr fun member hm => within_object.mp h member (List.mem_filter.mp hm).1

theorem within_rename (request : Request) (old : BundleId) (name : String)
    (h : metadata.toJson.Within P (room + 1)) :
    (request.rename old name metadata).toJson.Within P (room + 1) := by
  unfold Request.rename
  split
  · exact within_insert h (within_string _)
  · exact h

theorem within_pinImage (kind : BundleKind) (h : metadata.toJson.Within P (room + 1)) :
    (metadata.pinImage kind).toJson.Within P (room + 1) := by
  unfold pinImage
  split
  · split
    · exact h
    · exact within_insert h (within_string _)
  · exact h

end Metadata

/-- All values that a request asks for are bounded. -/
def Request.Asks (P : Number → Prop) (room : Nat) (request : Request) : Prop :=
  ∀ key value, request.overrides.get? key = some value → value.1.Within P room

theorem Metadata.within_overrideField {request : Request} {metadata : Metadata}
    (hr : request.Asks P room) (field : MetadataField)
    (h : metadata.toJson.Within P (room + 1)) :
    (request.overrideField metadata field).toJson.Within P (room + 1) := by
  have hkept : (if field.generated then metadata.erase field.key else metadata).toJson.Within P
      (room + 1) := by
    split
    · exact within_erase h
    · exact h
  unfold Request.overrideField
  cases hvalue : request.overrides.get? field.key with
  | none => exact hkept
  | some value => exact within_insert hkept (hr field.key value hvalue)

/-- **A counterpart** has no metadata but those of the old bundle, what is requested, and names. -/
theorem Bundle.within_counterpart {request : Request} {old : Bundle} (hr : request.Asks P room)
    (id : BundleId) (dependencies : List Dependency)
    (h : old.metadata.toJson.Within P (room + 1)) :
    (old.counterpart id dependencies request).metadata.toJson.Within P (room + 1) := by
  have hfields : ∀ (fields : List MetadataField) (metadata : Metadata),
      metadata.toJson.Within P (room + 1) →
        (fields.foldl request.overrideField metadata).toJson.Within P (room + 1) := by
    intro fields
    induction fields with
    | nil => exact fun _ hm => hm
    | cons field fields ih => exact fun metadata hm => ih _ (Metadata.within_overrideField hr field hm)
  exact hfields _ _ (Metadata.within_pinImage _ (Metadata.within_rename _ _ _ h))

/-! ### A replay keeps within bounds -/

namespace Request

variable {request : Request} {supply : IdSupply} {stock : Stock}

/-- The walks keep the metadata of all stored bundles within bounds. -/
theorem fits_kept {cache : Cache} (hm : cache.Mirrors stock.contents)
    (hf : stock.contents.Fits P (room + 1)) (hr : request.Asks P room) (start : Replayer)
    (ids : List BundleId) :
    Replayer.Kept supply request cache start ids fun _ stock => stock.contents.Fits P (room + 1) where
  keep h _ _ _ := h
  resolve := by
    rintro replayer next before after current old h _ _ hold _ hresolution
    cases hresolution with
    | unaffected => exact h
    | planned => exact h
    | reused => exact h
    | created _ _ _ _ hs =>
        obtain ⟨_, hbundles, _⟩ := hs.createBundle
        obtain ⟨stored, hstored, _, rfl⟩ := hm current old hold
        intro bundle hb
        rw [hbundles] at hb
        rcases List.mem_append.mp hb with hb | hb
        · exact h bundle hb
        · rw [List.mem_singleton.mp hb]
          exact Bundle.within_counterpart hr current (replayer.standIns stored.explained.dependencies)
            (hf stored hstored)

/-- **A replay** that succeeds leaves the metadata of all stored bundles within bounds. -/
theorem replay_fits {σ : Type} {handler : Handler σ} {view : σ → Stock} {state : σ}
    {replayed : Replayed} (hserves : handler.Serves supply view)
    (hf : (view state).contents.Fits P (room + 1)) (ha : request.Asks P room)
    (hr : (request.replay.run handler state).1 = .ok replayed) :
    (view (request.replay.run handler state).2).contents.Fits P (room + 1) := by
  obtain ⟨⟨named, replayer⟩, htraverse, hfinish⟩ := run_eq_finish hr
  -- resolving the specs leaves what is asked for
  have hasks : (request.inIds (view state).contents).Asks P room := ha
  have hkept : ∀ cache ids, cache.Mirrors (view state).contents →
      Replayer.Kept supply (request.inIds (view state).contents) cache
        (.start (request.inIds (view state).contents)) ids
        fun _ stock => stock.contents.Fits P (room + 1) :=
    fun cache ids hmirrors => fits_kept hmirrors hf hasks _ ids
  have hfits := (traverse_ensures_of_named request (fun _ => hf) hkept).run hserves named replayer
    htraverse
  obtain ⟨hbundles, _⟩ := (finish_ensures (named, replayer)).run hserves
  rw [hfinish]
  intro bundle hb
  exact hfits bundle (hbundles ▸ hb)

end Request

/-! ### The arguments -/

namespace GivenArguments

variable {given next : GivenArguments}

/-- All metadata values given so far have been read or are strings. -/
def Bounded (given : GivenArguments) : Prop :=
  ∀ item ∈ given.metadata, item.2.1.Within Number.Bounded Json.maxNesting

theorem within_metadata? {text : String} {item : String × Json.Value}
    (h : metadata? text = some item) : item.2.1.Within Number.Bounded Json.maxNesting := by
  unfold metadata? at h
  split at h
  · cases h
  · cases h
  · rename_i key value _ _
    cases h
    cases hread : Json.read? (String.ofList value) with
    | none => exact within_string _
    | some read => exact within_canonicalize read (within_readShaped? hread)

theorem bounded_set? {name value : String} (h : given.Bounded)
    (hs : given.set? name value = some next) : next.Bounded := by
  -- only one option adds to the metadata
  have hsame : ∀ {α : Type} {found : Option α} {put : α → GivenArguments},
      found.map put = some next → (∀ a, (put a).metadata = given.metadata) → next.Bounded := by
    intro α found put hnext hput
    obtain ⟨a, _, rfl⟩ := Option.map_eq_some_iff.mp hnext
    exact fun item hi => h item (hput a ▸ hi)
  unfold set? at hs
  split at hs
  · exact hsame hs fun _ => rfl
  · cases hs
    exact h
  · cases hs
    exact h
  · exact hsame hs fun _ => rfl
  · exact hsame hs fun _ => rfl
  · exact hsame hs fun _ => rfl
  · exact hsame hs fun _ => rfl
  · obtain ⟨item, hitem, rfl⟩ := Option.map_eq_some_iff.mp hs
    exact List.forall_mem_append.mpr ⟨h, List.forall_mem_singleton.mpr (within_metadata? hitem)⟩
  · exact hsame hs fun _ => rfl
  · cases hs

theorem bounded_raise? {name : String} (h : given.Bounded) (hr : given.raise? name = some next) :
    next.Bounded := by
  unfold raise? at hr
  split at hr
  on_goal 5 => cases hr
  all_goals
    split at hr <;> cases hr
    exact h

theorem bounded_complete {asked : Arguments} (h : given.Bounded)
    (hc : given.complete = .replay asked) :
    ∀ item ∈ asked.metadata, item.2.1.Within Number.Bounded Json.maxNesting := by
  unfold complete at hc
  split at hc <;> cases hc
  exact h

theorem bounded_read {arguments : List String} {asked : Arguments} (h : given.Bounded)
    (hr : given.read arguments = .replay asked) :
    ∀ item ∈ asked.metadata, item.2.1.Within Number.Bounded Json.maxNesting := by
  fun_induction GivenArguments.read given arguments
  case case1 => exact bounded_complete h hr
  case case2 => exact bounded_complete h hr
  case case4 hset ih => exact ih (bounded_set? h hset) hr
  case case8 hraise ih => exact ih (bounded_raise? h hraise) hr
  case case12 hset ih => exact ih (bounded_set? h hset) hr
  all_goals cases hr

/-- An option with its value as one argument. -/
def spell (option : String × String) : String :=
  "--" ++ option.1 ++ "=" ++ option.2

theorem splitAtEquals?_append {front : List Char} (h : '=' ∉ front) (back : List Char) :
    splitAtEquals? (front ++ '=' :: back) = some (front, back) := by
  induction front with
  | nil => rfl
  | cons c front ih =>
      have hc : c ≠ '=' := fun heq => h (heq ▸ List.mem_cons_self)
      have hfront : '=' ∉ front := fun hmem => h (List.mem_cons_of_mem c hmem)
      rw [List.cons_append, splitAtEquals?, if_neg hc, ih hfront]
      rfl

theorem read_spell {option : String × String} (h : '=' ∉ option.1.toList)
    (hs : given.set? option.1 option.2 = some next) (rest : List String) :
    given.read (spell option :: rest) = next.read rest := by
  have htext : (spell option).toList = '-' :: '-' :: (option.1.toList ++ '=' :: option.2.toList) := by
    simp [spell, String.toList_append]
  -- there is an equals sign behind the dashes, so more than the dashes is there
  obtain ⟨c, body, hbody⟩ := List.exists_cons_of_ne_nil
    (List.append_ne_nil_of_right_ne_nil option.1.toList (List.cons_ne_nil '=' option.2.toList))
  have hsplit := splitAtEquals?_append h option.2.toList
  rw [hbody] at htext hsplit
  rw [read]
  simp only [htext, hsplit, String.ofList_toList, hs]

/-- A value that can be read again can be given as metadata. -/
theorem metadata?_compact {key : String} {value : Json.Value} (hkey : key ≠ "")
    (hequals : '=' ∉ key.toList) (hl : value.1.Legible) (hn : value.1.nesting ≤ Json.maxNesting) :
    metadata? (key ++ "=" ++ value.1.compact) = some (key, value) := by
  have hsplit : splitAtEquals? (key ++ "=" ++ value.1.compact).toList =
      some (key.toList, value.1.compact.toList) := by
    have htext : (key ++ "=" ++ value.1.compact).toList =
        key.toList ++ '=' :: value.1.compact.toList := by
      simp [String.toList_append]
    rw [htext]
    exact splitAtEquals?_append hequals _
  have hread : Json.read? value.1.compact = some value.1 := by
    have hwritten := readShaped?_write .compact hl (Shape.Covers.any value.1)
    rwa [if_pos hn] at hwritten
  have hcanonical : Json.toValue value.1 = value :=
    Subtype.ext (canonicalize_of_isCanonical _ value.2)
  obtain ⟨c, front, hfront⟩ := List.exists_cons_of_ne_nil fun hempty => hkey
    (String.toList_eq_nil_iff.mp hempty)
  rw [hfront] at hsplit
  unfold metadata?
  simp only [hsplit, String.ofList_toList, hread, Option.map_some, Option.getD_some, hcanonical]
  rw [← hfront, String.ofList_toList]

end GivenArguments

/-- **Metadata among the arguments** may nest as deeply as a whole text. -/
theorem Invocation.within_ofArguments {args : List String} {arguments : Arguments}
    (h : ofArguments args = .replay arguments) :
    ∀ item ∈ arguments.metadata, item.2.1.Within Number.Bounded Json.maxNesting :=
  GivenArguments.bounded_read (show GivenArguments.nothing.Bounded from List.forall_mem_nil _) h

theorem Metadata.mem_of_get?_ofPairs {pairs : List (String × Json.Value)} {key : String}
    {value : Json.Value} (h : (Metadata.ofPairs pairs).get? key = some value) :
    ∃ pair ∈ pairs, pair.2 = value := by
  -- a value was there to begin with, or it comes from a pair
  have hfold : ∀ (pairs : List (String × Json.Value)) (metadata : Metadata),
      (pairs.foldl (fun metadata pair => metadata.insert pair.1 pair.2) metadata).get? key =
        some value → metadata.get? key = some value ∨ ∃ pair ∈ pairs, pair.2 = value := by
    intro pairs
    induction pairs with
    | nil => exact fun _ hget => .inl hget
    | cons pair pairs ih =>
        intro metadata hget
        rcases ih _ hget with hinsert | ⟨other, ho, hother⟩
        · rw [get?_insert] at hinsert
          split at hinsert
          · exact .inr ⟨pair, List.mem_cons_self, Option.some.inj hinsert⟩
          · exact .inl hinsert
        · exact .inr ⟨other, List.mem_cons_of_mem _ ho, hother⟩
  exact (hfold pairs .empty h).resolve_left nofun

theorem Arguments.asks_request {arguments : Arguments} {defaults : RequestDefaults}
    (h : ∀ item ∈ arguments.metadata, item.2.1.Within P room) :
    (arguments.request defaults).Asks P room := by
  intro key value hvalue
  obtain ⟨item, hitem, rfl⟩ := Metadata.mem_of_get?_ofPairs hvalue
  exact h item hitem

/-! ### Doubles -/

/-- All doubles in a value are read back from their text as they are. -/
def Json.Steady (value : Json) : Prop :=
  ∀ double, Number.double double ∈ value.numbers → (Number.double double).Legible

/-- Numbers that were read are legible unless they are doubles. -/
theorem Json.Within.legible {value : Json} (h : value.Within Number.Bounded room)
    (hs : value.Steady) : value.Within Number.Legible room := by
  refine ⟨h.nesting, fun number hn => ?_⟩
  cases number with
  | integer value => exact Number.legible_integer (h.numbers _ hn)
  | double value => exact hs value hn

/-! ### The command -/

namespace Arguments

variable {arguments : Arguments} {settings : Settings} {supply : IdSupply} {file text : String}
  {contents : Contents}

theorem replay_eq (settings : Settings) (supply : IdSupply) (request : Request)
    (contents : Contents) :
    replay settings supply request contents =
      ((request.replay.run (Store.handle supply) (.ofContents contents)).1,
        (request.replay.run (Store.handle supply) (.ofContents contents)).2.contents) := by
  have hkept : ∀ call (store : Store), (∀ error ∈ store.failures, error.isTransient = false) →
      Call.isLost (Store.handle supply call store).1 = false ∧
        ∀ error ∈ (Store.handle supply call store).2.failures, error.isTransient = false :=
    fun call _ h => Store.handle_not_isLost supply call h
  have hi : ∀ error ∈ (⟨.ofContents contents, []⟩ : Waited Store).inner.failures,
      error.isTransient = false := List.forall_mem_nil _
  rw [replay, run_retrying_of_not_isLost hkept settings.retry request.replay hi]

/-- The store is written back after a replay that succeeds and is no dry run. -/
theorem execute_store_iff (hl : Contents.load? file = some contents) :
    (arguments.execute settings supply (some file)).store = some text ↔
      arguments.dryRun = false ∧
        (replay settings supply (arguments.request settings.defaults) contents).1.isOk = true ∧
        text = (replay settings supply (arguments.request settings.defaults) contents).2.save := by
  have hdry : (arguments.request settings.defaults).dryRun = arguments.dryRun := rfl
  rw [execute, Option.bind_some, hl]
  simp only [hdry]
  rcases replay settings supply (arguments.request settings.defaults) contents with
    ⟨error | replayed, after⟩
  · exact ⟨nofun, fun h => nomatch h.2.1⟩
  · cases arguments.dryRun with
    | true => exact ⟨nofun, fun h => nomatch h.1⟩
    | false => exact ⟨fun h => ⟨rfl, rfl, (Option.some.inj h).symm⟩, fun h => congrArg some h.2.2.symm⟩

/-- **The store that is written back is read again**, if the doubles in it and among the arguments are,
unless it nests too deeply.  It does not if the values among the arguments nest less deeply than the
metadata of a stored bundle may. -/
theorem execute_reloads {args : List String} (ha : Invocation.ofArguments args = .replay arguments)
    (hl : Contents.load? file = some contents)
    (hs : (arguments.execute settings supply (some file)).store = some text)
    (hc : ∀ bundle ∈ contents.bundles, bundle.metadata.toJson.Steady)
    (hm : ∀ item ∈ arguments.metadata, item.2.1.Steady) :
    let after := (replay settings supply (arguments.request settings.defaults) contents).2
    text = after.save ∧
      Contents.load? text =
        (if after.toJson.nesting ≤ Json.maxNesting then some after else none) ∧
      ((∀ item ∈ arguments.metadata, item.2.1.nesting < Metadata.maxNesting) →
        Contents.load? text = some after) := by
  intro after
  obtain ⟨_, hok, rfl⟩ := (execute_store_iff hl).mp hs
  have hcontents : contents.Fits Number.Legible Metadata.maxNesting :=
    fun bundle hb => (Contents.fits_load? hl bundle hb).legible (hc bundle hb)
  have hvalues : ∀ item ∈ arguments.metadata, item.2.1.Within Number.Legible Json.maxNesting :=
    fun item hi => (Invocation.within_ofArguments ha item hi).legible (hm item hi)
  -- what bounds the values, and the metadata that were there, bounds what is written back
  have hafter : ∀ room, Metadata.maxNesting ≤ room + 1 →
      (∀ item ∈ arguments.metadata, item.2.1.nesting ≤ room) →
        after.Fits Number.Legible (room + 1) := by
    intro room hroom hnesting
    have hasks : (arguments.request settings.defaults).Asks Number.Legible room :=
      asks_request fun item hi => ⟨hnesting item hi, (hvalues item hi).numbers⟩
    have hstart : (Store.ofContents contents).stock.contents.Fits Number.Legible (room + 1) :=
      fun bundle hb => (hcontents bundle hb).mono hroom
    show (replay settings supply (arguments.request settings.defaults) contents).2.Fits _ _
    rw [replay_eq] at hok ⊢
    cases hr : ((arguments.request settings.defaults).replay.run (Store.handle supply)
        (.ofContents contents)).1 with
    | error error =>
        rw [hr] at hok
        cases hok
    | ok replayed => exact Request.replay_fits (Store.handle_serves supply) hstart hasks hr
  refine ⟨rfl, ?_, fun hnesting => ?_⟩
  · have hdeep : after.toJson.Within Number.Legible (Json.maxNesting + 4) :=
      Contents.within_toJson.mpr (hafter Json.maxNesting (by decide) fun item hi =>
        (hvalues item hi).nesting)
    exact Contents.load?_save_eq hdeep.numbers
  · exact Contents.load?_save (hafter (Metadata.maxNesting - 1) (by decide) fun item hi =>
      Nat.le_sub_one_of_lt (hnesting item hi))

/-- Options for a replay of the diamond that gives tags to all new bundles. -/
def tagging (tags : Json.Value) : List (String × String) :=
  [("store", "store.json"), ("old-input", "raw"), ("new-input", "fix"), ("old-output", "eval"),
    ("worksheet", "w"), ("metadata", "tags" ++ "=" ++ tags.1.compact)]

/-- What these options say. -/
def tagged (tags : Json.Value) : Arguments where
  store := "store.json"
  oldInputs := ["raw"]
  newInputs := ["fix"]
  oldOutput := some "eval"
  name := none
  worksheet := "w"
  depth := none
  shadow := false
  dryRun := false
  memoize := false
  skipPrelude := false
  metadata := [("tags", tags)]
  dataDir := none

theorem ofArguments_tagging (tags : Json.Value) (hl : tags.1.Legible)
    (hn : tags.1.nesting ≤ Json.maxNesting) :
    Invocation.ofArguments ((tagging tags).map GivenArguments.spell) = .replay (tagged tags) := by
  have hmetadata := GivenArguments.metadata?_compact (show "tags" ≠ "" by decide) (by decide) hl hn
  have hset : ∀ given : GivenArguments,
      given.set? "metadata" ("tags" ++ "=" ++ tags.1.compact) =
        some { given with metadata := given.metadata ++ [("tags", tags)] } := by
    intro given
    show (GivenArguments.metadata? _).map _ = _
    rw [hmetadata]
    rfl
  simp only [tagging, List.map_cons, List.map_nil]
  unfold Invocation.ofArguments
  rw [GivenArguments.read_spell (by decide) rfl, GivenArguments.read_spell (by decide) rfl,
    GivenArguments.read_spell (by decide) rfl, GivenArguments.read_spell (by decide) rfl,
    GivenArguments.read_spell (by decide) rfl,
    GivenArguments.read_spell (show '=' ∉ "metadata".toList by decide) (hset _)]
  rfl

theorem load?_diamond : Contents.load? Store.diamond.contents.save = some Store.diamond.contents :=
  Contents.load?_save_of_plain (by decide)

theorem execute_tagged (tags : Json.Value)
    (h : (replay .standard Stock.strokes ((tagged tags).request .standard)
      Store.diamond.contents).1.isOk = true) :
    ((tagged tags).execute .standard Stock.strokes (some Store.diamond.contents.save)).store =
      some (replay .standard Stock.strokes ((tagged tags).request .standard)
        Store.diamond.contents).2.save :=
  (execute_store_iff load?_diamond).mpr ⟨rfl, h, rfl⟩

/-- The diamond is replayed with a number as a tag, and the store that is written back is read
again. -/
theorem diamond_reloads : ∃ args text after,
    Invocation.ofArguments args = .replay (tagged ⟨.array [ofNat 1], rfl⟩) ∧
    Contents.load? Store.diamond.contents.save = some Store.diamond.contents ∧
    ((tagged ⟨.array [ofNat 1], rfl⟩).execute .standard Stock.strokes
      (some Store.diamond.contents.save)).store = some text ∧
    after.ids = Store.diamond.contents.ids ++ ["|", "||", "|||"] ∧
    Contents.load? text = some after := by
  have hinteger : Json.Legible (.array [ofNat 1]) := by
    intro number hn
    rw [List.mem_singleton.mp hn]
    exact Number.legible_integer ⟨by decide, by decide⟩
  have hargs := ofArguments_tagging ⟨.array [ofNat 1], rfl⟩ hinteger (by decide)
  have hstore := execute_tagged ⟨.array [ofNat 1], rfl⟩ (by decide +kernel)
  have hplain : ∀ bundle ∈ Store.diamond.contents.bundles, bundle.metadata.toJson.numbers = [] := by
    decide
  have hstored : ∀ bundle ∈ Store.diamond.contents.bundles, bundle.metadata.toJson.Steady :=
    fun bundle hb double hd => nomatch hplain bundle hb ▸ hd
  have hgiven : ∀ item ∈ (tagged ⟨.array [ofNat 1], rfl⟩).metadata, item.2.1.Steady := by
    intro item hi double hd
    rw [List.mem_singleton.mp hi] at hd
    cases List.mem_singleton.mp hd
  obtain ⟨_, _, hreload⟩ := execute_reloads hargs load?_diamond hstore hstored hgiven
  exact ⟨_, _, _, hargs, load?_diamond, hstore, by decide +kernel, hreload (by decide)⟩

/-- Lists in one another, as many as this and one more. -/
def nested : Nat → Json
  | 0 => .array []
  | depth + 1 => .array [nested depth]

theorem canonical_nested (depth : Nat) : (nested depth).isCanonical = true := by
  induction depth with
  | zero => rfl
  | succ depth ih => simp only [nested, isCanonical, itemsCanonical, ih, Bool.and_self]

theorem numbers_nested (depth : Nat) : (nested depth).numbers = [] := by
  induction depth with
  | zero => rfl
  | succ depth ih => simp only [nested, numbers, itemsNumbers, ih, List.append_nil]

/-- A value that is accepted among the arguments nests too deeply for the store: it is written back,
and cannot be read again. -/
theorem nested_not_reloaded : ∃ args text,
    Invocation.ofArguments args = .replay (tagged ⟨nested 123, canonical_nested 123⟩) ∧
    Contents.load? Store.diamond.contents.save = some Store.diamond.contents ∧
    ((tagged ⟨nested 123, canonical_nested 123⟩).execute .standard Stock.strokes
      (some Store.diamond.contents.save)).store = some text ∧
    Contents.load? text = none := by
  have hlegible : (nested 123).Legible := fun number hn => nomatch numbers_nested 123 ▸ hn
  have hargs := ofArguments_tagging ⟨nested 123, canonical_nested 123⟩ hlegible
    (by decide +kernel)
  have hstore := execute_tagged ⟨nested 123, canonical_nested 123⟩ (by decide +kernel)
  have hdeep : (replay .standard Stock.strokes
      ((tagged ⟨nested 123, canonical_nested 123⟩).request .standard)
        Store.diamond.contents).2.toJson.numbers = [] ∧
      ¬ (replay .standard Stock.strokes
        ((tagged ⟨nested 123, canonical_nested 123⟩).request .standard)
          Store.diamond.contents).2.toJson.nesting ≤ Json.maxNesting := by
    decide +kernel
  refine ⟨_, _, hargs, load?_diamond, hstore, ?_⟩
  rw [Contents.load?_save_eq (fun number hn => nomatch hdeep.1 ▸ hn), if_neg hdeep.2]

end Arguments

end Provenance
