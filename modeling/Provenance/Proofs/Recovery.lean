import Provenance.Proofs.Recursion
import Provenance.Proofs.Rewriting

/-!
# Asking again

Asking what stands in for a bundle may fail on the way up.  The path is lost then, but what was
settled before stays mapped.  Asked again, the recursion comes by the same path to the place of the
failure: what is mapped is passed over, and nothing that is on the path was mapped in between.

* `ascend_resumes`: in the state that an attempt has left, the recursion ends as it would have ended
  without the attempt.
* `Replayer.substitute_resumes`: so does asking for a bundle, whether or how the attempt has failed.
-/

namespace Provenance

open Dialogue Reporting

/-! ### What a store has created -/

namespace Store

/-- What a store has created since an earlier state of it is what it keeps in addition. -/
def Adds (store earlier : Store) : Prop :=
  ∃ made, store.contents.ids = earlier.contents.ids ++ made ∧
    store.createdBundles = earlier.createdBundles ++ made

theorem Adds.refl (store : Store) : store.Adds store :=
  ⟨[], (List.append_nil _).symm, (List.append_nil _).symm⟩

theorem Adds.trans {last mid first : Store} (h : last.Adds mid) (h' : mid.Adds first) :
    last.Adds first := by
  obtain ⟨late, hids, hcreated⟩ := h
  obtain ⟨early, hids', hcreated'⟩ := h'
  exact ⟨early ++ late, by rw [hids, hids', List.append_assoc],
    by rw [hcreated, hcreated', List.append_assoc]⟩

theorem Adds.createdBundles_eq {store other earlier : Store} (h : store.Adds earlier)
    (h' : other.Adds earlier) (hsame : store.contents.ids = other.contents.ids) :
    store.createdBundles = other.createdBundles := by
  obtain ⟨made, hids, hcreated⟩ := h
  obtain ⟨made', hids', hcreated'⟩ := h'
  rw [hids, hids', List.append_cancel_left_eq] at hsame
  rw [hcreated, hcreated', hsame]

theorem answer_adds {supply : IdSupply} {store next : Store} {call : Call} {answer : call.Answer}
    (h : store.answer supply call = .ok (answer, next)) : next.Adds store := by
  have hread : next = store → next.Adds store := by
    rintro rfl
    exact .refl next
  cases call with
  | fetchBundles => exact hread (Stock.Serves.map_eq_ok h).2
  | fetchBundle => exact hread (Stock.Serves.map_eq_ok h).2
  | fetchWorksheetsByBundle => exact hread (Prod.mk.inj (Except.ok.inj h)).2.symm
  | fetchWorksheet => exact hread (Stock.Serves.map_eq_ok h).2
  | createBundle description target placement =>
      change store.createBundle supply description target placement = .ok (answer, next) at h
      unfold Store.createBundle at h
      split at h
      · cases h
      · split at h
        · cases h
        · obtain ⟨rfl, rfl⟩ := Prod.mk.inj (Except.ok.inj h)
          exact ⟨[supply store.allocated], by simp [Contents.ids, Bundle.withId]⟩
  | createWorksheetItem item target =>
      change store.createWorksheetItem item target = .ok (answer, next) at h
      unfold Store.createWorksheetItem at h
      split at h
      · cases h
      · split at h
        · cases h
        · obtain ⟨rfl, rfl⟩ := Prod.mk.inj (Except.ok.inj h)
          exact ⟨[], by simp [Contents.ids, Contents.addItem]⟩
  | searchBundles => exact hread (Prod.mk.inj (Except.ok.inj h)).2.symm

end Store

/-- Whichever calls are failed, a run creates the bundles that it adds to the store. -/
theorem Recorded.run_adds {α : Type} (supply : IdSupply) (schedule : List (Nat × StoreError))
    (dialogue : Dialogue α) (recorded : Recorded) :
    (dialogue.run (handle supply schedule) recorded).2.store.Adds recorded.store := by
  let added (state : Recorded) : Prop := state.store.Adds recorded.store
  have hstart : added recorded := .refl recorded.store
  refine run_keeps ?_ dialogue hstart
  intro call state hadded
  change Store.Adds _ recorded.store at hadded
  change Store.Adds _ recorded.store
  simp only [handle, Store.handle]
  rw [disturb_eq_append]
  split
  · exact hadded
  · split
    · rename_i answer next ha
      exact (Store.answer_adds ha).trans hadded
    · exact hadded

namespace Replayer

variable {supply : IdSupply} {request : Request} {cache : Cache} {path : List BundleId}
  {replayer next : Replayer} {id parent : BundleId} {before after : Stock} {events : List Event}

/-! ### Attempts that succeed -/

/-- Where a recursion that succeeds leads, it comes when no call fails. -/
theorem run_ascend_of_leads {hid : id ∉ path} {new : Option BundleId}
    (h : (replayer.ascend request cache path id hid).Leads supply before events (.ok new, next)
      after) :
    (replayer.ascend request cache path id hid).run (Stock.handle supply) before =
        ((.ok new, next), after) ∧
      next.substitutions.get? id = some new ∧ replayer.Mounts next path := by
  obtain ⟨hpost, _, hsucceeded⟩ := (ascend_orderly request cache path replayer id hid).of_leads h
  exact ⟨h.run_eq (hsucceeded rfl), hpost new rfl⟩

theorem run_ascend_again {hid : id ∉ path} {new : Option BundleId}
    (h : (replayer.ascend request cache path id hid).Leads supply before events (.ok new, next)
      after) :
    (next.ascend request cache path id hid).run (Stock.handle supply) after =
      (replayer.ascend request cache path id hid).run (Stock.handle supply) before := by
  obtain ⟨hrun, hget, _⟩ := run_ascend_of_leads h
  rw [hrun, ascend_of_mapped hid hget]
  rfl

/-! ### Attempts that may fail -/

mutual

/-- **Resuming the recursion.**  An attempt, whose calls the store may have failed, maps nothing that
is on the path, and not the bundle itself if it ends with an error.  From where it has led, the
recursion ends as it would have ended from where it began, had no call failed. -/
theorem ascend_resumes (request : Request) (cache : Cache) (path : List BundleId)
    (replayer : Replayer) (id : BundleId) (hid : id ∉ path) {before after : Stock}
    {events : List Event} {result : Except ReplayError (Option BundleId)} {next : Replayer}
    (h : (replayer.ascend request cache path id hid).Leads supply before events (result, next)
      after) :
    replayer.Mounts next path ∧
      (∀ error, result = .error error → ¬ next.substitutions.contains id = true) ∧
      (next.ascend request cache path id hid).run (Stock.handle supply) after =
        (replayer.ascend request cache path id hid).run (Stock.handle supply) before := by
  cases result with
  | ok new => exact ⟨(run_ascend_of_leads h).2.2, nofun, run_ascend_again h⟩
  | error error =>
      cases hnone : replayer.substitutions.get? id with
      | some new =>
          rw [ascend_of_mapped hid hnone] at h
          cases h
      | none =>
          have hfree : ¬ replayer.substitutions.contains id = true := by
            simp [Register.contains, hnone]
          cases hc : cache.get? id with
          | none =>
              rw [ascend_of_beyond hid hnone hc] at h
              cases h
          | some old =>
              rw [ascend_of_fetched hid hnone hc] at h ⊢
              obtain ⟨_, _, ⟨outcome, mid⟩, stock, _, hparents, hrest⟩ := h.of_bind
              -- the state is the one after the parents, whether they failed or the bundle itself
              obtain ⟨rfl, rfl⟩ : mid = next ∧ stock = after := by
                cases outcome with
                | error error =>
                    obtain ⟨_, hresult, rfl⟩ := hrest.of_pure
                    cases hresult
                    exact ⟨rfl, rfl⟩
                | ok _ =>
                    obtain ⟨_, _, resolved, last, _, hresolve, hend⟩ := hrest.of_bind
                    obtain ⟨herror, _⟩ := (resolve_ensures mid request id old).of_leads hresolve
                    cases resolved with
                    | error error =>
                        obtain ⟨_, hresult, rfl⟩ := hend.of_pure
                        cases hresult
                        exact ⟨rfl, (herror error rfl).symm⟩
                    | ok _ => cases hend
              obtain ⟨hmounts, hrun⟩ :=
                ascendEach_resumes request cache (id :: path) replayer old.parents hparents
              have hstill : ¬ mid.substitutions.contains id = true :=
                fun hmapped => hfree (hmounts.spared id List.mem_cons_self hmapped)
              refine ⟨hmounts.tail, fun _ _ => hstill, ?_⟩
              have hnone' : mid.substitutions.get? id = none := by
                simpa [Register.contains] using hstill
              rw [ascend_of_fetched hid hnone' hc, run_bind, run_bind, hrun]
termination_by ((offPath cache path).length, 0)
decreasing_by exact Prod.Lex.left _ _ (offPath_lt hid hc)

theorem ascendEach_resumes (request : Request) (cache : Cache) (path : List BundleId)
    (replayer : Replayer) (parents : List BundleId) {before after : Stock} {events : List Event}
    {result : Except ReplayError Unit} {next : Replayer}
    (h : (replayer.ascendEach request cache path parents).Leads supply before events (result, next)
      after) :
    replayer.Mounts next path ∧
      (next.ascendEach request cache path parents).run (Stock.handle supply) after =
        (replayer.ascendEach request cache path parents).run (Stock.handle supply) before := by
  cases parents with
  | nil =>
      rw [ascendEach] at h
      cases h
      exact ⟨.refl replayer path, by rw [ascendEach]⟩
  | cons parent parents =>
      by_cases hskip : replayer.substitutions.contains parent = true ∨ parent ∈ path
      · rw [ascendEach_of_skipped parents hskip] at h ⊢
        obtain ⟨hmounts, hrun⟩ := ascendEach_resumes request cache path replayer parents h
        exact ⟨hmounts, by
          rw [ascendEach_of_skipped parents (hskip.imp_left (hmounts.grown parent)), hrun]⟩
      · have hoff : parent ∉ path := (not_or.mp hskip).2
        rw [ascendEach_of_pending parents hskip] at h ⊢
        obtain ⟨_, _, ⟨outcome, mid⟩, stock, _, hparent, hrest⟩ := h.of_bind
        cases outcome with
        | error error =>
            obtain ⟨_, hresult, rfl⟩ := hrest.of_pure
            cases hresult
            obtain ⟨hmounts, hfree, hrun⟩ :=
              ascend_resumes request cache path replayer parent hoff hparent
            have hskip' : ¬ (next.substitutions.contains parent = true ∨ parent ∈ path) :=
              not_or.mpr ⟨hfree error rfl, hoff⟩
            exact ⟨hmounts, by rw [ascendEach_of_pending parents hskip', run_bind, run_bind, hrun]⟩
        | ok new =>
            obtain ⟨hfirst, hget, hmounts⟩ := run_ascend_of_leads hparent
            obtain ⟨hmounts', hrun⟩ := ascendEach_resumes request cache path mid parents hrest
            have hmapped : mid.substitutions.contains parent = true := by
              simp [Register.contains, hget]
            refine ⟨hmounts.trans hmounts', ?_⟩
            rw [ascendEach_of_skipped parents (.inl (hmounts'.grown parent hmapped)), hrun, run_bind,
              hfirst]
termination_by ((offPath cache path).length, parents.length + 1)

end

theorem run_substitute_of_leads {result : Except ReplayError (Option BundleId)}
    (h : (replayer.substitute request cache id).Leads supply before events (result, next) after) :
    (next.substitute request cache id).run (Stock.handle supply) after =
      (replayer.substitute request cache id).run (Stock.handle supply) before := by
  rw [substitute_eq_ascend] at h
  rw [substitute_eq_ascend, substitute_eq_ascend]
  exact (ascend_resumes request cache [] replayer id List.not_mem_nil h).2.2

/-! ### Asking again -/

theorem run_recorded_again {store mid : Store} {result : Except ReplayError (Option BundleId)}
    (h : (replayer.substitute request cache id).Leads supply store.stock events (result, next)
      mid.stock) (hf : store.failures = []) (hf' : mid.failures = []) :
    let second := (next.substitute request cache id).run (Recorded.handle supply []) (.ofStore mid)
    let whole :=
      (replayer.substitute request cache id).run (Recorded.handle supply []) (.ofStore store)
    second.1 = whole.1 ∧ second.2.stock = whole.2.stock := by
  intro second whole
  obtain ⟨hanswer, hleft, _⟩ : second.1 = _ ∧ second.2.stock = _ ∧ _ :=
    Recorded.run_eq supply (next.substitute request cache id) hf'
  obtain ⟨hanswer', hleft', _⟩ : whole.1 = _ ∧ whole.2.stock = _ ∧ _ :=
    Recorded.run_eq supply (replayer.substitute request cache id) hf
  have hresumed := run_substitute_of_leads h
  exact ⟨hanswer.trans ((congrArg Prod.fst hresumed).trans hanswer'.symm),
    hleft.trans ((congrArg Prod.snd hresumed).trans hleft'.symm)⟩

theorem creates_nothing (supply : IdSupply) (schedule : List (Nat × StoreError)) (store : Store)
    (hnone : failure? ((replayer.substitute request cache id).run
      (Recorded.handle supply schedule) (.ofStore store)).1 = none)
    (hb : ((replayer.substitute request cache id).run (Recorded.handle supply schedule)
      (.ofStore store)).2.store.contents.bundles = store.contents.bundles) :
    ∀ call ∈ ((replayer.substitute request cache id).run (Recorded.handle supply schedule)
      (.ofStore store)).2.calls, call.operation ≠ .createBundle := by
  obtain ⟨events, hleads, hcalls⟩ := Recorded.exists_leads supply schedule
    (replayer.substitute request cache id) (.ofStore store)
  have hsucceeded := ((substitute_orderly request cache replayer id).of_leads hleads).2.2 hnone
  intro call hcall
  rw [hcalls] at hcall
  obtain ⟨event, he, rfl⟩ := List.mem_map.mp hcall
  exact hleads.operation_ne hsucceeded hb event he

/-- **A failed attempt is resumed.**  Whatever the graph, the request and the state, and whichever calls
are failed: asked again without failures, in the state and on the store that an attempt has left, what
stands in for a bundle is what one attempt without failures answers.  The state is the one after that,
with the same plan, and so is what the store keeps; altogether no more bundles were created.  If the
attempt has met a bundle that can't be made again, so does the next one, which changes nothing and
makes no call to create a bundle.

All attempts draw their ids from one supply, whatever this is, so nothing has to be renamed. -/
theorem substitute_resumes (request : Request) (cache : Cache) (replayer : Replayer) (id : BundleId)
    (supply : IdSupply) (schedule : List (Nat × StoreError)) (store : Store) :
    let first := (replayer.substitute request cache id).run (Recorded.handle supply schedule)
      (.ofStore store)
    let second := (first.1.2.substitute request cache id).run (Recorded.handle supply [])
      (.ofStore { first.2.store with failures := [] })
    let whole := (replayer.substitute request cache id).run (Recorded.handle supply [])
      (.ofStore { store with failures := [] })
    second.1 = whole.1 ∧ second.2.store.contents = whole.2.store.contents ∧
      second.2.store.allocated = whole.2.store.allocated ∧
      second.2.store.createdBundles = whole.2.store.createdBundles ∧
      ∀ stuck, first.1.1 = .error (.notDerived stuck) →
        second.1 = first.1 ∧ second.2.stock = first.2.stock ∧
          ∀ call ∈ second.2.calls, call.operation ≠ .createBundle := by
  intro first second whole
  let mid : Store := { first.2.store with failures := [] }
  let calm : Store := { store with failures := [] }
  obtain ⟨events, hleads, _⟩ : ∃ events,
      (replayer.substitute request cache id).Leads supply calm.stock events first.1 mid.stock ∧ _ :=
    Recorded.exists_leads supply schedule (replayer.substitute request cache id) (.ofStore store)
  obtain ⟨hresult, hstock⟩ : second.1 = whole.1 ∧ second.2.stock = whole.2.stock :=
    run_recorded_again hleads rfl rfl
  refine ⟨hresult, congrArg Stock.contents hstock, congrArg Stock.allocated hstock, ?_, ?_⟩
  · have hfirst : first.2.store.Adds store := Recorded.run_adds supply schedule _ (.ofStore store)
    have hsecond : second.2.store.Adds first.2.store := Recorded.run_adds supply [] _ (.ofStore mid)
    have hwhole : whole.2.store.Adds store := Recorded.run_adds supply [] _ (.ofStore calm)
    exact (hsecond.trans hfirst).createdBundles_eq hwhole
      (congrArg (fun stock => stock.contents.ids) hstock)
  · intro stuck hstuck
    -- no call of the attempt was failed, so it was a whole one
    have hnone : failure? first.1 = none := by
      change failure? first.1.1 = none
      rw [hstuck]
      rfl
    have hsucceeded := ((substitute_orderly request cache replayer id).of_leads hleads).2.2 hnone
    have hrun : ((replayer.substitute request cache id).run (Stock.handle supply) calm.stock) =
        (first.1, mid.stock) := hleads.run_eq hsucceeded
    obtain ⟨hanswer, hleft, _⟩ : whole.1 = _ ∧ whole.2.stock = _ ∧ _ :=
      Recorded.run_eq supply (replayer.substitute request cache id) rfl
    have hsame : second.1 = first.1 := by rw [hresult, hanswer]; exact congrArg Prod.fst hrun
    have hunchanged : second.2.stock = first.2.stock := by
      rw [hstock, hleft]
      exact congrArg Prod.snd hrun
    refine ⟨hsame, hunchanged, creates_nothing supply [] mid ?_ ?_⟩
    · exact (congrArg failure? hsame).trans hnone
    · exact congrArg (fun stock => stock.contents.bundles) hunchanged

/-- A data set that was copied from what was prepared from the raw data. -/
def copied : List Bundle :=
  [.mounting .dataset "raw" none [], .mounting .dataset "fix" none [],
    .mounting .run "prep" (some "prep") ["raw"], .mounting .dataset "copy" none ["prep"]]

/-- Of two bundles on a cycle, one is made before the attempt fails, and the other after that.  The
copy can't be made again: the attempt fails after one bundle was made, and so does the next one. -/
theorem loop_resumes_and_copy_sticks :
    let asked := (start replaceRaw).substitute replaceRaw (.ofBundles loop) "right"
    let first := asked.run (Recorded.handle Stock.strokes [(1, .transport "gone")])
      (.ofStore (.ofBundles loop))
    let second := (first.1.2.substitute replaceRaw (.ofBundles loop) "right").run
      (Recorded.handle Stock.strokes []) (.ofStore { first.2.store with failures := [] })
    let whole := asked.run (Recorded.handle Stock.strokes []) (.ofStore (.ofBundles loop))
    let stuck := ((start replaceRaw).substitute replaceRaw (.ofBundles copied) "copy").run
      (Recorded.handle Stock.strokes []) (.ofStore (.ofBundles copied))
    let again := (stuck.1.2.substitute replaceRaw (.ofBundles copied) "copy").run
      (Recorded.handle Stock.strokes []) (.ofStore { stuck.2.store with failures := [] })
    (first.1.1 = .error (.store (.transport "gone")) ∧ first.1.2.created = ["|"] ∧
      second.1.1 = .ok (some "||") ∧ second.1.2.created = ["|", "||"] ∧ second.1 = whole.1 ∧
      second.2.store.contents = whole.2.store.contents) ∧
    stuck.1.1 = .error (.notDerived "copy") ∧ stuck.1.2.created = ["|"] ∧ again.1 = stuck.1 ∧
      again.2.stock = stuck.2.stock ∧
      ∀ call ∈ again.2.calls, call.operation ≠ .createBundle := by
  intro asked first second whole stuck again
  have hresumes := substitute_resumes replaceRaw (.ofBundles loop) (start replaceRaw) "right"
    Stock.strokes [(1, .transport "gone")] (.ofBundles loop)
  have hstuck : stuck.1.1 = .error (.notDerived "copy") := by decide +kernel
  have hsticks := substitute_resumes replaceRaw (.ofBundles copied) (start replaceRaw) "copy"
    Stock.strokes [] (.ofBundles copied)
  refine ⟨⟨?_, ?_, ?_, ?_, hresumes.1, hresumes.2.1⟩, hstuck, ?_,
    hsticks.2.2.2.2 "copy" hstuck⟩
  · decide +kernel
  · decide +kernel
  · decide +kernel
  · decide +kernel
  · decide +kernel

end Replayer

end Provenance
