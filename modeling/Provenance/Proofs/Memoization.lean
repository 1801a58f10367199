import Provenance.Proofs.Itinerary

/-!
# What a replay finds again

A replay that takes equivalent bundles over creates a bundle only if there is none like it.  Hence
what it found or created for a plan entry stays the latest of its kind, whatever is created after
it: `Latest`.  A second replay, on what a first one has left, finds the same bundles again.

Two states are `Like` each other if they differ at most in which bundles they count as created.
Dialogues that match make the same calls (`Dialogue.Matches`).

* `Resolution.latest` and `Resolution.keeps_latest`: how resolving a bundle keeps `Latest`.
* `Resolution.run_again`: what was resolved once is resolved to the same without a call that writes.
* `settleAll_resume`: settling the bundles of a list after an attempt that may have failed.
-/

namespace Provenance

open Dialogue

/-! ### Dialogues that make the same calls -/

namespace Dialogue

variable {α β γ δ σ : Type} {R : α → β → Prop} {S : γ → δ → Prop}

/-- Two dialogues make the same calls, and their results are related. -/
inductive Matches (R : α → β → Prop) : Dialogue α → Dialogue β → Prop
  | done {found : α} {found' : β} (h : R found found') : Matches R (.done found) (.done found')
  | ask {c : Call} {next : c.Outcome → Dialogue α} {next' : c.Outcome → Dialogue β}
      (h : ∀ outcome, Matches R (next outcome) (next' outcome)) :
      Matches R (.ask c next) (.ask c next')

namespace Matches

theorem refl (dialogue : Dialogue α) : dialogue.Matches Eq dialogue := by
  induction dialogue with
  | done result => exact .done rfl
  | ask c more ih => exact .ask ih

theorem bind {dialogue : Dialogue α} {dialogue' : Dialogue β} {next : α → Dialogue γ}
    {next' : β → Dialogue δ} (h : dialogue.Matches R dialogue')
    (hn : ∀ found found', R found found' → (next found).Matches S (next' found')) :
    (dialogue >>= next).Matches S (dialogue' >>= next') := by
  induction h with
  | done hr => exact hn _ _ hr
  | ask _ ih => exact .ask ih

theorem bind_same {dialogue : Dialogue α} {next : α → Dialogue γ} {next' : α → Dialogue δ}
    (hn : ∀ found, (next found).Matches S (next' found)) :
    (dialogue >>= next).Matches S (dialogue >>= next') := by
  refine (Matches.refl dialogue).bind ?_
  rintro found _ rfl
  exact hn found

theorem run {dialogue : Dialogue α} {dialogue' : Dialogue β} (h : dialogue.Matches R dialogue')
    (handler : Handler σ) (state : σ) :
    R (dialogue.run handler state).1 (dialogue'.run handler state).1 ∧
      (dialogue.run handler state).2 = (dialogue'.run handler state).2 := by
  induction h generalizing state with
  | done hr => exact ⟨hr, rfl⟩
  | ask _ ih => exact ih _ _

end Matches

end Dialogue

/-- Two outcomes are the same failure, or results that are related. -/
inductive SameOutcome {ε α β : Type} (R : α → β → Prop) : Except ε α → Except ε β → Prop
  | error (error : ε) : SameOutcome R (.error error) (.error error)
  | ok {found : α} {found' : β} (h : R found found') : SameOutcome R (.ok found) (.ok found')

/-! ### The latest bundles of their kind -/

namespace Contents

variable {contents : Contents} {command : Option String} {keys keys' : List DependencyKey}

theorem searchBundles_congr (h : sortedKeys keys = sortedKeys keys') :
    contents.searchBundles command keys = contents.searchBundles command keys' := by
  simp only [searchBundles, h]

theorem sortedKeys_of_mem_searchBundles {found : Bundle}
    (h : found ∈ contents.searchBundles command keys) :
    sortedKeys found.keys = sortedKeys keys := by
  obtain ⟨stored, hstored, rfl⟩ := List.mem_map.mp h
  have hmatch := (List.mem_filter.mp hstored).2
  exact (decide_eq_true_iff.mp hmatch).2

/-- A bundle that was added is found behind the others, if it is like what is searched for. -/
theorem searchBundles_append {other : Contents} {new : Bundle}
    (h : other.bundles = contents.bundles ++ [new]) (command : Option String)
    (keys : List DependencyKey) :
    other.searchBundles command keys = contents.searchBundles command keys ++
      if new.command = command ∧ sortedKeys new.keys = sortedKeys keys then [new.explained]
      else [] := by
  simp only [searchBundles, h, List.filter_append, List.map_append]
  by_cases hlike : new.command = command ∧ sortedKeys new.keys = sortedKeys keys
  · simp [hlike]
  · simp [hlike]

/-- The new bundle of each plan entry is the latest one with the command of the old and its keys. -/
def Latest (contents : Contents) (plan : Plan) : Prop :=
  ∀ entry ∈ plan,
    (contents.searchBundles entry.old.command entry.new.keys).getLast? = some entry.new

theorem Latest.congr {other : Contents} {plan : Plan} (h : contents.Latest plan)
    (hb : other.bundles = contents.bundles) : other.Latest plan := by
  intro entry he
  have hentry := h entry he
  rwa [searchBundles, ← hb] at hentry

theorem Latest.mem_ids {plan : Plan} (h : contents.Latest plan) {id : BundleId}
    (hid : id ∈ plan.newIds) : id ∈ contents.ids := by
  obtain ⟨entry, he, hnew⟩ := List.mem_filterMap.mp hid
  obtain ⟨stored, hstored, _, hexplained⟩ := exists_of_getLast?_searchBundles (h entry he)
  rw [hexplained] at hnew
  exact Contents.mem_ids.mpr ⟨stored, hstored, hnew⟩

end Contents

theorem keys_newBundle (contents : Contents) (description : Bundle) (id : BundleId) :
    (contents.newBundle description id).keys = description.keys := by
  rw [Bundle.keys, Contents.newBundle_dependencies, List.map_map]
  rfl

namespace Replayer

variable {supply : IdSupply} {request : Request} {cache : Cache} {replayer other next : Replayer}
  {id : BundleId} {old : Bundle} {before after : Stock} {plan : Plan}

/-- What resolving a bundle keeps of the latest bundles: a new bundle is created only where none is
like it, so that it comes after no other of its kind. -/
theorem Resolution.keeps_latest (hm : request.memoize = true)
    (hr : Resolution supply request replayer id old before next after)
    (h : before.contents.Latest plan) : after.contents.Latest plan := by
  cases hr with
  | unaffected => exact h
  | planned => exact h
  | reused => exact h
  | @created made _ _ _ hnone _ hs =>
      intro entry he
      have hentry := h entry he
      obtain ⟨_, hbundles, _⟩ := hs.createBundle
      have hkeys := keys_newBundle before.contents (replayer.description request id old)
        (supply before.allocated)
      rw [Contents.searchBundles_append hbundles, hkeys]
      split
      · rename_i hlike
        -- were the new bundle like this one, it would not have been created
        obtain ⟨hcommand, hsame⟩ := hlike
        rw [← hcommand, ← Contents.searchBundles_congr hsame] at hentry
        have hempty := hnone hm
        exact absurd (hempty ▸ hentry) (by simp)
      · rw [List.append_nil, hentry]

/-- Resolving a bundle keeps the latest bundles of the plan. -/
theorem Resolution.latest (hd : request.dryRun = false) (hm : request.memoize = true)
    (hr : Resolution supply request replayer id old before next after)
    (h : before.contents.Latest replayer.plan) : after.contents.Latest next.plan := by
  have hkept := hr.keeps_latest hm h
  cases hr with
  | unaffected => exact hkept
  | planned _ hdry =>
      rw [hd] at hdry
      cases hdry
  | @reused existing _ _ _ hs =>
      intro entry he
      rcases List.mem_append.mp he with he | he
      · exact hkept entry he
      · obtain rfl := List.mem_singleton.mp he
        have hkeys := Contents.sortedKeys_of_mem_searchBundles (List.mem_of_getLast? hs)
        rw [Contents.searchBundles_congr hkeys]
        exact hs
  | @created made _ _ _ hnone _ hs =>
      intro entry he
      rcases List.mem_append.mp he with he | he
      · exact hkept entry he
      · obtain rfl := List.mem_singleton.mp he
        obtain ⟨rfl, hbundles, _⟩ := hs.createBundle
        have hkeys := keys_newBundle before.contents (replayer.description request id old)
          (supply before.allocated)
        rw [Contents.searchBundles_append hbundles, if_pos ⟨rfl, rfl⟩]
        exact List.getLast?_concat

/-! ### States that differ in what counts as created -/

/-- Two states differ at most in which bundles they count as created. -/
structure Like (replayer other : Replayer) : Prop where
  substitutions : replayer.substitutions = other.substitutions
  downstream : replayer.downstream = other.downstream
  plan : replayer.plan = other.plan

namespace Like

theorem refl (replayer : Replayer) : replayer.Like replayer :=
  ⟨rfl, rfl, rfl⟩

theorem trans {third : Replayer} (h : replayer.Like other) (h' : other.Like third) :
    replayer.Like third :=
  ⟨h.substitutions.trans h'.substitutions, h.downstream.trans h'.downstream, h.plan.trans h'.plan⟩

theorem symm (h : replayer.Like other) : other.Like replayer :=
  ⟨h.substitutions.symm, h.downstream.symm, h.plan.symm⟩

theorem affects_eq (h : replayer.Like other) (request : Request) (id : BundleId) (old : Bundle) :
    replayer.affects request id old = other.affects request id old := by
  simp only [affects, h.downstream]

theorem standIns_eq (h : replayer.Like other) (dependencies : List Dependency) :
    replayer.standIns dependencies = other.standIns dependencies := by
  simp only [standIns, standIn, h.substitutions]

theorem description_eq (h : replayer.Like other) (request : Request) (id : BundleId)
    (old : Bundle) : replayer.description request id old = other.description request id old := by
  simp only [description, h.standIns_eq]

theorem map (h : replayer.Like other) (id : BundleId) (new : Option BundleId) :
    (replayer.map id new).Like (other.map id new) :=
  ⟨congrArg (·.add id new) h.substitutions, h.downstream, h.plan⟩

theorem record (h : replayer.Like other) (id : BundleId) (old new : Bundle) :
    (replayer.record id old new).Like (other.record id old new) :=
  ⟨congrArg (·.add id new.id) h.substitutions, congrArg (id :: ·) h.downstream,
    congrArg (fun plan : Plan => plan ++ [⟨old, new⟩]) h.plan⟩

theorem countCreated (replayer : Replayer) (new : Bundle) :
    (replayer.countCreated new).Like replayer :=
  ⟨rfl, rfl, rfl⟩

/-- Resolving a bundle does not depend on what counts as created. -/
theorem resolve_matches (h : replayer.Like other) (request : Request) (id : BundleId)
    (old : Bundle) :
    (replayer.resolve request id old).Matches (SameOutcome Like) (other.resolve request id old) := by
  unfold resolve
  rw [h.affects_eq, h.standIns_eq]
  split
  · exact .done (.ok (h.map id _))
  · refine Matches.bind_same fun found => ?_
    cases found with
    | error error => exact .done (.error _)
    | ok found =>
        cases request.dryRun with
        | true => exact .done (.ok (h.record id old _))
        | false =>
            cases found with
            | some existing => exact .done (.ok (h.record id old existing))
            | none =>
                refine Matches.bind_same fun made => ?_
                cases made with
                | error error => exact .done (.error _)
                | ok made =>
                    have hlike := (countCreated _ made).trans
                      ((h.record id old made).trans (countCreated _ made).symm)
                    exact .done (.ok hlike)

theorem settle_matches (h : replayer.Like other) (request : Request) (cache : Cache)
    (id : BundleId) :
    (replayer.settle request cache id).Matches (SameOutcome Like)
      (other.settle request cache id) := by
  unfold settle
  split
  · exact .done (.ok (h.map id _))
  · exact h.resolve_matches request id _

theorem settleAll_matches (h : replayer.Like other) (request : Request) (cache : Cache)
    (ids : List BundleId) :
    (replayer.settleAll request cache ids).Matches
      (fun result result' => result.1 = result'.1 ∧ result.2.Like result'.2)
      (other.settleAll request cache ids) := by
  induction ids generalizing replayer other with
  | nil => exact .done ⟨rfl, h⟩
  | cons id ids ih =>
      refine (h.settle_matches request cache id).bind ?_
      rintro _ _ (error | hnext)
      · exact .done ⟨rfl, h⟩
      · exact ih hnext

end Like

/-! ### Resolving again -/

/-- Unless it only plans, resolving an affected bundle records one that has the keys of its
description. -/
theorem Resolution.exists_record (hd : request.dryRun = false)
    (hr : Resolution supply request replayer id old before next after) :
    (replayer.affects request id old = false ∧ next = replayer.map id (some id)) ∨
      (replayer.affects request id old = true ∧ ∃ new, next.Like (replayer.record id old new) ∧
        Contents.sortedKeys new.keys =
          Contents.sortedKeys (replayer.description request id old).keys) := by
  cases hr with
  | unaffected h => exact .inl ⟨h, rfl⟩
  | planned _ hdry =>
      rw [hd] at hdry
      cases hdry
  | @reused existing h _ _ hs =>
      have hkeys := Contents.sortedKeys_of_mem_searchBundles (List.mem_of_getLast? hs)
      exact .inr ⟨h, existing, .refl _, hkeys⟩
  | @created made _ h _ _ _ hs =>
      obtain ⟨rfl, _⟩ := hs.createBundle
      exact .inr ⟨h, _, .countCreated _ _, congrArg _ (keys_newBundle before.contents _ _)⟩

theorem run_resolve_of_unaffected (ha : replayer.affects request id old = false) (stock : Stock) :
    (replayer.resolve request id old).run (Stock.handle supply) stock =
      (.ok (replayer.map id (some id)), stock) := by
  simp [resolve, ha]

/-- An affected bundle is replaced by the latest equivalent one where there is one. -/
theorem run_resolve_of_found (hd : request.dryRun = false) (hm : request.memoize = true)
    (ha : replayer.affects request id old = true) {stock : Stock} {existing : Bundle}
    (hs : (stock.contents.searchBundles old.command
      (replayer.description request id old).keys).getLast? = some existing) :
    (replayer.resolve request id old).run (Stock.handle supply) stock =
      (.ok (replayer.record id old existing), stock) := by
  have hequivalent : (equivalent request old.command (replayer.description request id old)).run
      (Stock.handle supply) stock = (.ok (some existing), stock) := by
    rw [← hs]
    simp only [equivalent, hd, hm]
    rfl
  have hdescription : replayer.description request id old =
    old.counterpart id (replayer.standIns old.dependencies) request := rfl
  rw [hdescription] at hequivalent
  simp [resolve, ha, run_bind, hequivalent, hd]

/-- **What was resolved once is resolved to the same again**, where it is still the latest of its
kind, and nothing is written. -/
theorem Resolution.run_again (hd : request.dryRun = false) (hm : request.memoize = true)
    (hr : Resolution supply request replayer id old before next after) (hl : other.Like replayer)
    {later : Stock} (hlatest : later.contents.Latest next.plan) :
    ∃ next', (other.resolve request id old).run (Stock.handle supply) later = (.ok next', later) ∧
      next'.Like next := by
  rcases hr.exists_record hd with ⟨ha, rfl⟩ | ⟨ha, new, hnext, hkeys⟩
  · rw [← hl.affects_eq] at ha
    exact ⟨_, run_resolve_of_unaffected ha later, hl.map id _⟩
  · have hentry := hlatest ⟨old, new⟩ (by simp [hnext.plan, Replayer.record])
    rw [Contents.searchBundles_congr hkeys, ← hl.description_eq] at hentry
    rw [← hl.affects_eq] at ha
    exact ⟨_, run_resolve_of_found hd hm ha hentry, (hl.record id old new).trans hnext.symm⟩

/-! ### Settling again -/

theorem Settlement.keeps_latest (hm : request.memoize = true)
    (hs : Settlement supply request cache replayer id before next after)
    (h : before.contents.Latest plan) : after.contents.Latest plan := by
  cases hs with
  | keep => exact h
  | resolve _ hr => exact hr.keeps_latest hm h

theorem Settlement.latest (hd : request.dryRun = false) (hm : request.memoize = true)
    (hs : Settlement supply request cache replayer id before next after)
    (h : before.contents.Latest replayer.plan) : after.contents.Latest next.plan := by
  cases hs with
  | keep => exact h
  | resolve _ hr => exact hr.latest hd hm h

theorem Settlement.run_again (hd : request.dryRun = false) (hm : request.memoize = true)
    (hs : Settlement supply request cache replayer id before next after) (hl : other.Like replayer)
    {later : Stock} (hlatest : later.contents.Latest next.plan) :
    ∃ next', (other.settle request cache id).run (Stock.handle supply) later = (.ok next', later) ∧
      next'.Like next := by
  cases hs with
  | keep hc =>
      refine ⟨other.map id (some id), ?_, hl.map id _⟩
      rw [settle, hc]
      rfl
  | resolve hc hr =>
      rw [settle, hc]
      exact hr.run_again hd hm hl hlatest

/-- **Settling after an attempt.**  If all bundles of a list can be settled, and an attempt to do so
has led to a stock, then they can be settled from there.  When the attempt failed, this ends where
it would have ended without the attempt; when it did not, nothing more is done. -/
theorem settleAll_resume (hd : request.dryRun = false) (hm : request.memoize = true)
    {ids : List BundleId} {last : Replayer} {attempted later whole : Stock} {events : List Event}
    {result : Except ReplayError Unit × Replayer}
    (hlatest : before.contents.Latest replayer.plan)
    (hwhole : (replayer.settleAll request cache ids).run (Stock.handle supply) before =
      ((.ok (), last), whole))
    (hfirst : (replayer.settleAll request cache ids).Leads supply before events result attempted)
    (hbundles : later.contents.bundles = attempted.contents.bundles)
    (hfailed : ∀ error, result.1 = .error error → later = attempted) (hl : other.Like replayer) :
    ∃ last' after, (other.settleAll request cache ids).run (Stock.handle supply) later =
        ((.ok (), last'), after) ∧ last'.Like last ∧
      ((result.1 ≠ .ok () ∧ after = whole) ∨
        (result.1 = .ok () ∧ after = later ∧ attempted = whole)) := by
  induction ids generalizing replayer other before events with
  | nil =>
      obtain ⟨rfl, rfl, rfl⟩ := hfirst.of_pure
      cases hwhole
      exact ⟨other, later, rfl, hl, .inr ⟨rfl, rfl, rfl⟩⟩
  | cons id ids ih =>
      obtain ⟨first, second, outcome, mid, rfl, hsettle, hrest⟩ := hfirst.of_bind
      have horderly := settle_orderly request cache replayer id
      obtain ⟨herror, hok⟩ := (settle_ensures request cache replayer id).of_leads hsettle
      cases outcome with
      | error error =>
          -- the attempt ended here and left nothing behind, so the rest goes as without it
          obtain rfl := herror error rfl
          obtain ⟨_, rfl, rfl⟩ := hrest.of_pure
          obtain rfl := hfailed error rfl
          have hmatch :=
            (hl.settleAll_matches request cache (id :: ids)).run (Stock.handle supply) later
          cases hrun : (other.settleAll request cache (id :: ids)).run (Stock.handle supply) later with
          | mk ended after =>
              rw [hrun, hwhole] at hmatch
              obtain ⟨outcome, last'⟩ := ended
              obtain ⟨⟨rfl, hlast⟩, rfl⟩ :
                (outcome = .ok () ∧ last'.Like last) ∧ after = whole := hmatch
              exact ⟨last', after, rfl, hlast, .inl ⟨nofun, rfl⟩⟩
      | ok next =>
          have hsettled := hok next rfl
          have hmid := hsettle.run_eq (horderly.of_leads hsettle |>.2.2 rfl)
          rw [settleAll, run_bind, hmid] at hwhole
          -- what was settled here is still the latest of its kind where the attempt ended
          have hnext := hsettled.latest hd hm hlatest
          have hkept : attempted.contents.Latest next.plan :=
            (settleAll_ensures (fun _ _ _ _ _ h hs => hs.keeps_latest hm h) ids hnext).of_leads hrest
          obtain ⟨next', hagain, hlike⟩ := hsettled.run_again hd hm hl (hkept.congr hbundles)
          obtain ⟨last', after, hrun, hend⟩ := ih hnext hwhole hrest hlike
          refine ⟨last', after, ?_, hend⟩
          rw [settleAll, run_bind, hagain]
          exact hrun

end Replayer

end Provenance
