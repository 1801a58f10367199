import Provenance.Proofs.Phases
import Provenance.Proofs.Resumption

/-!
# Requested metadata reaches the new bundles

A request may ask for metadata of every new bundle; a value for a key that the kind of the old bundle
declares beats whatever would be there otherwise.  What is made from the description of a counterpart
has these values.  A stored bundle that is taken over keeps its own metadata, since equivalence looks
at the command and the dependencies only.

* `Metadata.get?_foldl_overrideField`: treating some declared keys gives each of them the value that
  is asked for.
* `Replayer.Heeded.resolve`: resolving a bundle keeps it so that an entry has what is asked for, or
  the bundle of an entry that is older than its own.
* `Request.replay_keeps_overrides`: the plan of a replay is like this.
* `Request.stocked_loses_overrides`: both ways in which a value gets lost.
-/

namespace Provenance

open Dialogue

/-- The declared keys. -/
def BundleKind.keys (kind : BundleKind) : List String :=
  kind.fields.map MetadataField.key

/-! ### The description of a counterpart -/

namespace Metadata

variable {request : Request} {key : String} {value : Json.Value}

theorem get?_overrideField (h : request.overrides.get? key = some value) (metadata : Metadata)
    (field : MetadataField) :
    (request.overrideField metadata field).get? key =
      if field.key = key then some value else metadata.get? key := by
  unfold Request.overrideField
  by_cases hk : field.key = key
  · subst hk
    simp [h, get?_insert]
  · -- another key is neither dropped nor put in
    have hkept : (if field.generated then metadata.erase field.key else metadata).get? key =
        metadata.get? key := by
      split
      · rw [get?_erase, if_neg (Ne.symm hk)]
      · rfl
    rw [if_neg hk]
    cases request.overrides.get? field.key with
    | none => exact hkept
    | some other => exact (get?_insert _ _ _ _).trans ((if_neg hk).trans hkept)

theorem get?_foldl_overrideField (h : request.overrides.get? key = some value)
    (fields : List MetadataField) (metadata : Metadata) :
    (fields.foldl request.overrideField metadata).get? key =
      if key ∈ fields.map MetadataField.key then some value else metadata.get? key := by
  induction fields generalizing metadata with
  | nil => rfl
  | cons field fields ih =>
      rw [List.foldl_cons, ih, get?_overrideField h, List.map_cons]
      by_cases hk : field.key = key
      · simp [hk]
      · simp [hk, Ne.symm hk]

end Metadata

/-- The metadata has every value that is asked for and that a kind of bundle declares. -/
def Metadata.Heeds (request : Request) (kind : BundleKind) (metadata : Metadata) : Prop :=
  ∀ key ∈ kind.keys, ∀ value, request.overrides.get? key = some value →
    metadata.get? key = some value

theorem Bundle.heeds_counterpart (request : Request) (id : BundleId) (old : Bundle)
    (dependencies : List Dependency) :
    (old.counterpart id dependencies request).metadata.Heeds request old.kind := by
  intro key hk value hv
  exact (Metadata.get?_foldl_overrideField hv _ _).trans (if_pos hk)

/-! ### The plan -/

namespace Replayer

/-- A requested value is lost with an entry: the bundle that was taken over was stored initially, or it
stands in for another old bundle, too, and has only what the kind of that one declares. -/
def Loses (request : Request) (initial : List Bundle) (plan : Plan) (entry : PlanEntry)
    (key : String) : Prop :=
  request.dryRun = false ∧ request.memoize = true ∧
    ((∃ existing ∈ initial, entry.new = existing.explained) ∨
      ∃ other ∈ plan, other.new = entry.new ∧ other.new.metadata.Heeds request other.old.kind ∧
        key ∉ other.old.kind.keys)

theorem Loses.mono {request : Request} {initial : List Bundle} {plan more : Plan}
    {entry : PlanEntry} {key : String} (h : Loses request initial plan entry key)
    (hp : ∀ other ∈ plan, other ∈ more) : Loses request initial more entry key := by
  obtain ⟨hd, hm, h⟩ := h
  refine ⟨hd, hm, h.imp_right ?_⟩
  rintro ⟨other, ho, hnew⟩
  exact ⟨other, hp other ho, hnew⟩

/-- Every new bundle has what is asked for unless it was taken over, and what was stored since the
beginning has been made for an entry. -/
structure Heeded (request : Request) (initial : List Bundle) (replayer : Replayer)
    (stock : Stock) : Prop where
  entries : ∀ entry ∈ replayer.plan, ∀ key ∈ entry.old.kind.keys, ∀ value,
    request.overrides.get? key = some value → entry.new.metadata.get? key = some value ∨
      Loses request initial replayer.plan entry key
  stored : ∀ bundle ∈ stock.contents.bundles, bundle ∈ initial ∨
    ∃ entry ∈ replayer.plan, entry.new = bundle.explained ∧
      entry.new.metadata.Heeds request entry.old.kind

namespace Heeded

variable {supply : IdSupply} {request : Request} {initial : List Bundle}
  {replayer next : Replayer} {stock after : Stock} {id : BundleId} {old new : Bundle}

theorem record (h : Heeded request initial replayer stock)
    (hnew : ∀ key ∈ old.kind.keys, ∀ value, request.overrides.get? key = some value →
      new.metadata.get? key = some value ∨ Loses request initial replayer.plan ⟨old, new⟩ key)
    (hstored : ∀ bundle ∈ after.contents.bundles, bundle ∈ stock.contents.bundles ∨
      (new = bundle.explained ∧ new.metadata.Heeds request old.kind)) :
    Heeded request initial (replayer.record id old new) after := by
  have hplan : ∀ entry ∈ replayer.plan, entry ∈ (replayer.record id old new).plan :=
    fun _ he => List.mem_append_left _ he
  refine ⟨?_, ?_⟩
  · intro entry he key hk value hv
    rcases List.mem_append.mp he with he | he
    · exact (h.entries entry he key hk value hv).imp_right (·.mono hplan)
    · obtain rfl := List.mem_singleton.mp he
      exact (hnew key hk value hv).imp_right (·.mono hplan)
  · intro bundle hb
    rcases hstored bundle hb with hb | ⟨hmade, hheeds⟩
    · refine (h.stored bundle hb).imp_right ?_
      rintro ⟨entry, he, hentry⟩
      exact ⟨entry, hplan entry he, hentry⟩
    · exact .inr ⟨⟨old, new⟩, List.mem_append_right _ List.mem_cons_self, hmade, hheeds⟩

/-- **Resolving a bundle** adds an entry that has what is asked for, or one with a bundle that was
there before. -/
theorem resolve (h : Heeded request initial replayer stock)
    (hr : Resolution supply request replayer id old stock next after) :
    Heeded request initial next after := by
  cases hr with
  | unaffected => exact ⟨h.entries, h.stored⟩
  | planned =>
      refine h.record (fun key hk value hv => .inl ?_) fun bundle hb => .inl hb
      exact Bundle.heeds_counterpart request id old _ key hk value hv
  | reused _ hd hm hs =>
      obtain ⟨existing, hexisting, _, rfl⟩ := Contents.exists_of_getLast?_searchBundles hs
      refine h.record (fun key hk value hv => ?_) fun bundle hb => .inl hb
      rcases h.stored existing hexisting with hi | ⟨other, ho, hnew, hheeds⟩
      · exact .inr ⟨hd, hm, .inl ⟨existing, hi, rfl⟩⟩
      · -- it was made for another entry: with the value, if its kind declares the key
        by_cases hkey : key ∈ other.old.kind.keys
        · exact .inl (hnew ▸ hheeds key hkey value hv)
        · exact .inr ⟨hd, hm, .inr ⟨other, ho, hnew, hheeds, hkey⟩⟩
  | created _ _ _ _ hs =>
      obtain ⟨rfl, hbundles, _⟩ := hs.createBundle
      have hheeds : (replayer.description request id old).metadata.Heeds request old.kind :=
        Bundle.heeds_counterpart request id old _
      have hrecord : Heeded request initial (replayer.record id old
          (stock.contents.newBundle (replayer.description request id old)
            (supply stock.allocated)).explained) after := by
        refine h.record (fun key hk value hv => .inl (hheeds key hk value hv)) fun bundle hb => ?_
        rw [hbundles] at hb
        refine (List.mem_append.mp hb).imp_right fun hb => ?_
        obtain rfl := List.mem_singleton.mp hb
        exact ⟨rfl, hheeds⟩
      exact ⟨hrecord.entries, hrecord.stored⟩

theorem kept (request : Request) (initial : List Bundle) (cache : Cache) (start : Replayer)
    (ids : List BundleId) :
    Kept supply request cache start ids (Heeded request initial) where
  keep h _ _ _ := ⟨h.entries, h.stored⟩
  resolve h _ _ _ _ hr := h.resolve hr

end Heeded

end Replayer

/-! ### The whole replay -/

namespace Request

/-- **Requested metadata gets lost with equivalent bundles only.**  When a replay succeeds, the new
bundle of each entry of its plan has every requested value whose key the kind of the old bundle
declares, unless it was taken over: then it was stored before the replay, or it stands in for another
old bundle, too, and has what is requested for the keys that the kind of that one declares, of which
this key is none. -/
theorem replay_keeps_overrides (request : Request) (supply : IdSupply)
    (schedule : List (Nat × StoreError)) (recorded : Recorded) {replayed : Replayed}
    (hr : (request.replay.run (Recorded.handle supply schedule) recorded).1 = .ok replayed) :
    ∀ entry ∈ replayed.plan, ∀ key ∈ entry.old.kind.keys, ∀ value,
      request.overrides.get? key = some value →
        entry.new.metadata.get? key = some value ∨
          (request.dryRun = false ∧ request.memoize = true ∧
            ((∃ existing ∈ recorded.store.contents.bundles, entry.new = existing.explained) ∨
              ∃ other ∈ replayed.plan, other.new = entry.new ∧
                other.new.metadata.Heeds request other.old.kind ∧ key ∉ other.old.kind.keys)) := by
  have hserves := Recorded.handle_serves supply schedule
  obtain ⟨⟨named, replayer⟩, htraverse, hfinish⟩ := run_eq_finish hr
  have hstart : Replayer.Heeded (request.inIds recorded.stock.contents)
      recorded.store.contents.bundles (.start (request.inIds recorded.stock.contents))
      recorded.stock := ⟨List.forall_mem_nil _, fun _ hb => .inl hb⟩
  have hheeded := (traverse_ensures request hstart fun cache ids =>
    Replayer.Heeded.kept _ _ cache _ ids).run hserves named replayer htraverse
  obtain ⟨_, hplan⟩ := (finish_ensures (named, replayer)).run hserves
  rw [← hfinish] at hplan
  rw [hplan replayed hr]
  exact hheeded.entries

/-- A replay of the diamond with a description for every new bundle. -/
def described (request : Request) : Request :=
  { request with
    overrides := .ofPairs [("description", .ofString "again"), ("request_queue", .ofString "fast")] }

/-- All that is made of the diamond gets the description. -/
theorem diamond_keeps_overrides : ∃ replayed,
    ((described (diamond (some "eval"))).replay.run (Recorded.handle Stock.strokes [])
      (.ofStore Store.diamond)).1 = .ok replayed ∧
    (replayed.plan.map fun entry => entry.new.id) = [some "|", some "||", some "|||"] ∧
    ∀ entry ∈ replayed.plan, "description" ∈ entry.old.kind.keys →
      entry.new.metadata.get? "description" = some (.ofString "again") := by
  have hplan : ((described (diamond (some "eval"))).replay.run (Recorded.handle Stock.strokes [])
      (.ofStore Store.diamond)).1.toOption.map
        (fun replayed => replayed.plan.map fun entry => entry.new.id) =
      some [some "|", some "||", some "|||"] := by
    decide +kernel
  obtain ⟨replayed, hr, hids⟩ := exists_ok_of_map hplan
  refine ⟨replayed, hr, hids, fun entry he hk => ?_⟩
  have hkept := replay_keeps_overrides (described (diamond (some "eval"))) Stock.strokes []
    (.ofStore Store.diamond) hr entry he "description" hk (.ofString "again") (by decide)
  obtain hvalue | ⟨_, hmemoize, _⟩ := hkept
  · exact hvalue
  · cases hmemoize

end Request

/-- A store in which one run was made on the fixed data already, and a make and a run without a command
have the same dependencies. -/
def Store.stocked : Store :=
  .ofBundles [.mounting .dataset "raw" none [], .mounting .dataset "fix" none [],
    .mounting .run "prep" (some "prep") ["raw"], .mounting .run "done" (some "prep") ["fix"],
    .mounting .make "pack" none ["raw"], .mounting .run "mix" none ["raw"]]

namespace Request

/-- With equivalent bundles, requested values get lost: the run that was made already has none of them,
and the make, which is made first, does not declare the queue that the run without a command asks
for. -/
theorem stocked_loses_overrides :
    (described (chain none)).dryRun = false ∧ (described (chain none)).memoize = true ∧
      (∀ key ∈ ["description", "request_queue"], key ∈ BundleKind.run.keys ∧
        ((described (chain none)).overrides.get? key).isSome = true) ∧
      ((described (chain none)).replay.run (Recorded.handle Stock.strokes [])
        (.ofStore Store.stocked)).1.toOption.map (fun replayed => replayed.plan.map fun entry =>
          ((entry.old.id, entry.old.kind), entry.new.id,
            ["description", "request_queue"].map fun key => (entry.new.metadata.get? key).isSome)) =
        some [((some "prep", .run), some "done", [false, false]),
          ((some "pack", .make), some "|", [true, false]),
          ((some "mix", .run), some "|", [true, false])] := by
  refine ⟨rfl, rfl, by decide, ?_⟩
  decide +kernel

end Request

end Provenance
