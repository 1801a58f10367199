import Provenance.Proofs.Atomicity
import Provenance.Proofs.Phases

/-!
# Names for ids

A request may name bundles instead of giving their ids.  A replay finds out which bundles are meant
before it does anything else: it makes one call for each spec, and goes on with the ids alone.  An id
stands for itself, also where it is the name of another bundle, so nothing changes if the ids are given
in the first place.

* `Request.run_resolved`: what resolving the specs of a request gives, and which calls it takes.
* `Request.replay_identifies`: names or ids, a replay ends alike; and it ends at once, without creating
  anything, where a spec stands for nothing.
-/

namespace Provenance

open Dialogue

/-! ### One spec -/

namespace Contents

variable {contents : Contents} {spec : String} {id : BundleId}

theorem idOf_eq (h : contents.idOf? spec = some id) : contents.idOf spec = id := by
  rw [idOf, h]
  rfl

/-- A spec stands for a bundle with an id exactly if an id of a stored bundle is put in its place. -/
theorem idOf_mem_ids_iff : contents.idOf spec ∈ contents.ids ↔ (contents.idOf? spec).isSome = true := by
  cases h : contents.idOf? spec with
  | none =>
      have hspec : contents.idOf spec = spec := by rw [idOf, h]; rfl
      rw [hspec]
      constructor
      · intro hmem
        rw [idOf?_of_mem_ids hmem] at h
        cases h
      · intro hsome
        cases hsome
  | some id =>
      rw [idOf_eq h]
      exact ⟨fun _ => rfl, fun _ => mem_ids_of_idOf? h⟩

theorem exists_fetched (h : contents.idOf? spec = some id) :
    ∃ bundle, contents.fetchBundles [spec] none = .ok [bundle] ∧ bundle.id = some id := by
  obtain ⟨bundle, hb, hid⟩ := Option.bind_eq_some_iff.mp h
  refine ⟨bundle.explained, ?_, hid⟩
  simp [fetchBundles, resolveAll, hb, hid, descendants, Except.map]

end Contents

namespace Store

/-- The store after so many more calls that fetch bundles. -/
def fetched (store : Store) (calls : Nat) : Store :=
  { store with
    counts := { store.counts with fetchBundles := store.counts.fetchBundles + calls } }

theorem fetched_fetched (store : Store) (first second : Nat) :
    (store.fetched first).fetched second = store.fetched (first + second) := by
  simp only [fetched, Nat.add_assoc]

variable {store : Store}

theorem handle_fetchBundles {specs : List String} {depth : Option Nat} {found : List Bundle}
    (hf : store.failures = []) (h : store.contents.fetchBundles specs depth = .ok found)
    (supply : IdSupply) :
    handle supply (.fetchBundles specs depth) store = (.ok found, store.fetched 1) := by
  have ha : store.answer supply (.fetchBundles specs depth) = .ok (found, store) := by
    simp only [answer, h]
    rfl
  rw [handle_of_answer hf ha]
  rfl

/-- Nothing is written from one store to the other. -/
def OnlyRead (store after : Store) : Prop :=
  ∃ counts failures, after = { store with counts, failures } ∧
    counts.mutations = store.counts.mutations

theorem OnlyRead.refl (store : Store) : store.OnlyRead store :=
  ⟨_, _, rfl, rfl⟩

theorem OnlyRead.trans {mid after : Store} (h : store.OnlyRead mid) (h' : mid.OnlyRead after) :
    store.OnlyRead after := by
  obtain ⟨_, _, rfl, hm⟩ := h
  obtain ⟨counts, failures, rfl, hm'⟩ := h'
  exact ⟨counts, failures, rfl, hm'.trans hm⟩

theorem mutations_bump {call : Call} (hr : call.Reads) (counts : CallCounts) :
    (counts.bump call.operation).mutations = counts.mutations := by
  cases call with
  | createBundle => exact hr.elim
  | createWorksheetItem => exact hr.elim
  | _ => rfl

theorem answer_of_reads {supply : IdSupply} {call : Call} {answer : call.Answer} {next : Store}
    (hr : call.Reads) (h : store.answer supply call = .ok (answer, next)) : next = store := by
  cases call with
  | createBundle => exact hr.elim
  | createWorksheetItem => exact hr.elim
  | fetchWorksheetsByBundle => exact (Prod.mk.inj (Except.ok.inj h)).2.symm
  | searchBundles => exact (Prod.mk.inj (Except.ok.inj h)).2.symm
  | _ => exact (Stock.Serves.map_eq_ok h).2

/-- Calls that read do only read, however they end. -/
theorem handle_onlyRead (supply : IdSupply) (store : Store) {call : Call} (hr : call.Reads) :
    store.OnlyRead (handle supply call store).2 := by
  have hm := mutations_bump hr store.counts
  cases hf : store.failures with
  | cons error failures =>
      rw [handle_of_queued hf]
      exact ⟨_, _, rfl, hm⟩
  | nil =>
      cases ha : store.answer supply call with
      | error error =>
          rw [handle_of_refusal hf (answer_eq_error_iff.mp ha)]
          exact ⟨_, _, rfl, hm⟩
      | ok answered =>
          rw [handle_of_answer hf ha, answer_of_reads hr ha]
          exact ⟨_, _, rfl, hm⟩

end Store

/-! ### All specs of a request -/

namespace Request

variable {supply : IdSupply} {store : Store} {contents : Contents} {request : Request}
  {error : StoreError}

theorem specs_inIds (request : Request) (contents : Contents) :
    (request.inIds contents).specs = request.specs.map contents.idOf := by
  simp [specs, inIds, Option.toList_map]

/-- What is wrong with a request in itself does not depend on what its specs are. -/
theorem validate_inIds (request : Request) (contents : Contents) :
    (request.inIds contents).validate = request.validate := by
  simp only [validate, inIds, List.length_map, Option.map_eq_none_iff, List.map_eq_nil_iff]
  congr

theorem named_iff : request.Named contents ↔ ∀ spec ∈ request.specs, spec ∈ contents.ids := by
  simp only [specs, List.mem_append, Option.mem_toList]
  constructor
  · rintro ⟨houtput, hold, hnew⟩ spec ((hspec | hspec) | hspec)
    · exact houtput spec hspec
    · exact hold spec hspec
    · exact hnew spec hspec
  · intro h
    exact ⟨fun id hid => h id (.inl (.inl hid)), fun id hid => h id (.inl (.inr hid)),
      fun id hid => h id (.inr hid)⟩

theorem inIds_named_iff : (request.inIds contents).Named contents ↔
    ∀ spec ∈ request.specs, (contents.idOf? spec).isSome = true := by
  rw [named_iff, specs_inIds, List.forall_mem_map]
  simp only [Contents.idOf_mem_ids_iff]

theorem isSome_idOf?_of_named (h : request.Named contents) :
    ∀ spec ∈ request.specs, (contents.idOf? spec).isSome = true := by
  intro spec hspec
  rw [Contents.idOf?_of_mem_ids (named_iff.mp h spec hspec)]
  rfl

/-! ### Resolving -/

theorem run_resolveSpec {spec : String} (hf : store.failures = [])
    (h : (store.contents.idOf? spec).isSome = true) :
    (resolveSpec spec).run (Store.handle supply) store =
      (.ok (store.contents.idOf spec), store.fetched 1) := by
  obtain ⟨id, hid⟩ := Option.isSome_iff_exists.mp h
  obtain ⟨bundle, hfetched, hown⟩ := Contents.exists_fetched hid
  rw [resolveSpec, run_bind, run_call, Store.handle_fetchBundles hf hfetched]
  simp [hown, Contents.idOf_eq hid]

theorem run_resolveSpecs {specs : List String} (hf : store.failures = [])
    (h : ∀ spec ∈ specs, (store.contents.idOf? spec).isSome = true) :
    (resolveSpecs specs).run (Store.handle supply) store =
      (.ok (specs.map store.contents.idOf), store.fetched specs.length) := by
  induction specs generalizing store with
  | nil => rfl
  | cons spec specs ih =>
      obtain ⟨hspec, hspecs⟩ := List.forall_mem_cons.mp h
      have hrest : (resolveSpecs specs).run (Store.handle supply) (store.fetched 1) = _ :=
        ih hf hspecs
      rw [resolveSpecs, run_bind, run_resolveSpec hf hspec]
      simp only [run_bind, hrest, Store.fetched_fetched, Nat.add_comm 1]
      rfl

theorem run_resolveOptional {spec : Option String} (hf : store.failures = [])
    (h : ∀ own, spec = some own → (store.contents.idOf? own).isSome = true) :
    (resolveOptional spec).run (Store.handle supply) store =
      (.ok (spec.map store.contents.idOf), store.fetched spec.toList.length) := by
  cases spec with
  | none => rfl
  | some own =>
      rw [resolveOptional, run_bind, run_resolveSpec hf (h own rfl)]
      rfl

/-- **Resolving a request** puts ids in place of its specs and takes one call for each. -/
theorem run_resolved (hf : store.failures = [])
    (h : ∀ spec ∈ request.specs, (store.contents.idOf? spec).isSome = true) :
    request.resolved.run (Store.handle supply) store =
      (.ok (request.inIds store.contents), store.fetched request.specs.length) := by
  have houtput : (resolveOptional request.oldOutput).run (Store.handle supply) store = _ :=
    run_resolveOptional hf fun own hown => h own (by simp [specs, hown])
  have hold : ∀ calls, (resolveSpecs request.oldInputs).run (Store.handle supply)
      (store.fetched calls) = _ :=
    fun calls => run_resolveSpecs hf fun spec hspec => h spec (by simp [specs, hspec])
  have hnew : ∀ calls, (resolveSpecs request.newInputs).run (Store.handle supply)
      (store.fetched calls) = _ :=
    fun calls => run_resolveSpecs hf fun spec hspec => h spec (by simp [specs, hspec])
  simp only [resolved, run_bind, houtput, hold, hnew, Store.fetched_fetched, run_pure, specs,
    List.length_append]
  rfl

theorem run_resolved_again (hf : store.failures = [])
    (h : ∀ spec ∈ request.specs, (store.contents.idOf? spec).isSome = true) :
    (request.inIds store.contents).resolved.run (Store.handle supply) store =
      (.ok (request.inIds store.contents), store.fetched request.specs.length) := by
  have hnamed := inIds_named_iff.mpr h
  rw [run_resolved hf (isSome_idOf?_of_named hnamed), inIds_of_named hnamed, specs_inIds,
    List.length_map]

/-- A queued failure is all that resolving a request meets, if there is anything to resolve. -/
theorem run_resolved_of_queued {failures : List StoreError}
    (hf : store.failures = error :: failures) (h : request.specs ≠ []) :
    request.resolved.run (Store.handle supply) store =
      (.error (.store error), { store.fetched 1 with failures }) := by
  have hspec : ∀ spec, (resolveSpec spec).run (Store.handle supply) store =
      (.error (.store error), { store.fetched 1 with failures }) := by
    intro spec
    rw [resolveSpec, run_bind, run_call, Store.handle_of_queued hf]
    rfl
  unfold resolved
  cases ho : request.oldOutput with
  | some output => simp only [resolveOptional, run_bind, run_pure, hspec, Except.map]
  | none =>
      cases hold : request.oldInputs with
      | cons spec specs => simp only [resolveOptional, resolveSpecs, run_bind, run_pure, hspec]
      | nil =>
          cases hnew : request.newInputs with
          | cons spec specs => simp only [resolveOptional, resolveSpecs, run_bind, run_pure, hspec]
          | nil => exact absurd (by simp [Request.specs, ho, hold, hnew]) h

/-- Resolving goes alike for names and for ids, also if it meets a queued failure. -/
theorem run_resolved_inIds
    (h : ∀ spec ∈ request.specs, (store.contents.idOf? spec).isSome = true) :
    (request.inIds store.contents).resolved.run (Store.handle supply) store =
      request.resolved.run (Store.handle supply) store := by
  cases hf : store.failures with
  | nil => rw [run_resolved_again hf h, run_resolved hf h]
  | cons error failures =>
      by_cases hspecs : request.specs = []
      · have hnamed : request.Named store.contents := named_iff.mpr (by simp [hspecs])
        rw [inIds_of_named hnamed]
      · have hids : (request.inIds store.contents).specs ≠ [] := by simpa [specs_inIds] using hspecs
        rw [run_resolved_of_queued hf hspecs, run_resolved_of_queued hf hids]

theorem run_resolved_error (h : ∃ spec ∈ request.specs, store.contents.idOf? spec = none) :
    ∃ error, (request.resolved.run (Store.handle supply) store).1 = .error error := by
  have hfinds := Ensures.run (Store.handle_serves supply) (@resolved_finds supply store.stock request)
  cases hr : (request.resolved.run (Store.handle supply) store).1 with
  | error error => exact ⟨error, rfl⟩
  | ok named =>
      obtain ⟨rfl, hnamed⟩ := hfinds.2 named hr
      obtain ⟨spec, hspec, hnone⟩ := h
      have hsome := inIds_named_iff.mp hnamed spec hspec
      change (store.contents.idOf? spec).isSome = true at hsome
      rw [hnone] at hsome
      cases hsome

theorem run_resolved_onlyRead (request : Request) (store : Store) :
    store.OnlyRead (request.resolved.run (Store.handle supply) store).2 :=
  (resolved_orderly request).run_keeps
    (fun _ state hc h => h.trans (Store.handle_onlyRead supply state hc.reads)) (.refl store)

/-! ### Whole replays -/

/-- A replay depends on its request only through what resolving it gives. -/
theorem run_replay_congr {σ : Type} {handler : Handler σ} {state : σ} {other : Request}
    (hv : other.validate = request.validate)
    (hr : other.resolved.run handler state = request.resolved.run handler state) :
    other.replay.run handler state = request.replay.run handler state := by
  unfold replay
  rw [hv]
  cases request.validate with
  | error error => rfl
  | ok _ => simp only [run_bind, hr]

theorem run_replay_of_unresolved (h : ∃ spec ∈ request.specs, store.contents.idOf? spec = none) :
    ∃ error, (request.replay.run (Store.handle supply) store).1 = .error error ∧
      store.OnlyRead (request.replay.run (Store.handle supply) store).2 := by
  unfold replay
  cases request.validate with
  | error error => exact ⟨error, rfl, .refl store⟩
  | ok _ =>
      have hfails : ∃ error, (request.resolved.run (Store.handle supply) store).1 = .error error :=
        run_resolved_error h
      obtain ⟨error, herror⟩ := hfails
      simp only [run_bind, herror, run_pure]
      exact ⟨error, rfl, run_resolved_onlyRead request store⟩

/-- **Naming bundles is giving their ids.**  Provided that all specs of a request stand for bundles with
ids, its replay and that of the request in ids end alike, in the same store: whatever is queued for
them, and whatever the ids are that both of them draw, so that there is none to rename.  Unless a
failure is queued, resolving the request gives the request in ids, and resolving that gives it again.

If one of the specs stands for no such bundle, a replay fails, and it writes nothing. -/
theorem replay_identifies (supply : IdSupply) (store : Store) (request : Request) :
    let ids := request.inIds store.contents
    ((∀ spec ∈ request.specs, (store.contents.idOf? spec).isSome = true) →
      ids.replay.run (Store.handle supply) store = request.replay.run (Store.handle supply) store ∧
      (store.failures = [] → ∃ after last,
        request.resolved.run (Store.handle supply) store = (.ok ids, after) ∧
        ids.resolved.run (Store.handle supply) after = (.ok ids, last))) ∧
    ((∃ spec ∈ request.specs, store.contents.idOf? spec = none) → ∃ error,
      (request.replay.run (Store.handle supply) store).1 = .error error ∧
        store.OnlyRead (request.replay.run (Store.handle supply) store).2) := by
  intro ids
  refine ⟨fun h => ⟨?_, fun hf => ?_⟩, run_replay_of_unresolved⟩
  · exact run_replay_congr (validate_inIds request store.contents) (run_resolved_inIds h)
  · have hagain := @run_resolved_again supply (store.fetched request.specs.length) request hf h
    exact ⟨_, _, run_resolved hf h, hagain⟩

end Request

/-- A store in which two bundles have one name, and a third one goes by the id of the first. -/
def Store.namesakes : Store :=
  .ofBundles [(Bundle.mounting .dataset "raw" none []).withId "1",
    (Bundle.mounting .dataset "raw" none []).withId "2",
    (Bundle.mounting .dataset "1" none []).withId "3",
    (Bundle.mounting .run "prep" (some "prep") ["2"]).withId "4"]

namespace Request

/-- The name stands for the later of the two bundles, and the id for the bundle that has it. -/
theorem replay_identifies_namesakes :
    let request := fun new : String =>
      { ofDefaults "w" .standard with
        oldInputs := ["raw"]
        newInputs := [new]
        oldOutput := some "prep" }
    let ids :=
      { ofDefaults "w" .standard with
        oldInputs := ["2"]
        newInputs := ["1"]
        oldOutput := some "4" }
    let replayed := fun request : Request =>
      request.replay.run (Store.handle Stock.strokes) Store.namesakes
    replayed ids = replayed (request "1") ∧
      (replayed ids).1.toOption.map (·.plan.newIds) = some ["|"] ∧
      (∃ after last,
        (request "1").resolved.run (Store.handle Stock.strokes) Store.namesakes = (.ok ids, after) ∧
        ids.resolved.run (Store.handle Stock.strokes) after = (.ok ids, last)) ∧
      ∃ error, (replayed (request "lost")).1 = .error error ∧
        Store.namesakes.OnlyRead (replayed (request "lost")).2 := by
  intro request ids replayed
  have hids : (request "1").inIds Store.namesakes.contents = ids := by decide
  have hknown : ∀ spec ∈ (request "1").specs,
      (Store.namesakes.contents.idOf? spec).isSome = true := by decide
  have hunknown : ∃ spec ∈ (request "lost").specs, Store.namesakes.contents.idOf? spec = none := by
    decide
  obtain ⟨hsame, htwice⟩ :=
    (replay_identifies Stock.strokes Store.namesakes (request "1")).1 hknown
  rw [hids] at hsame htwice
  exact ⟨hsame, by decide, htwice rfl,
    (replay_identifies Stock.strokes Store.namesakes (request "lost")).2 hunknown⟩

end Request

end Provenance
