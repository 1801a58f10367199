import Provenance.Proofs.Conduct
import Provenance.Proofs.Walk

/-!
# In which order bundles are settled

Whether a walk enters a bundle depends on what is mapped, and not on what to.  So the order in which
the bundles are settled is known before anything is asked of the store.

* `exists_itinerary`: asking for some bundles settles the bundles of a list, one after another.  The
  list is the same for all requests and all states in which the same bundles are mapped.
-/

namespace Provenance

open Dialogue

namespace Replayer

/-- Deals with one bundle: one beyond the cache stands in for itself, any other is resolved. -/
def settle (request : Request) (cache : Cache) (replayer : Replayer) (id : BundleId) :
    Dialogue (Except ReplayError Replayer) :=
  match cache.get? id with
  | none => return .ok (replayer.map id (some id))
  | some old => replayer.resolve request id old

/-- Deals with some bundles, one after another. -/
def settleAll (request : Request) (cache : Cache) (replayer : Replayer) :
    List BundleId → Dialogue (Except ReplayError Unit × Replayer)
  | [] => return (.ok (), replayer)
  | id :: ids => do
    match ← replayer.settle request cache id with
    | .error error => return (.error error, replayer)
    | .ok next => next.settleAll request cache ids

/-- The same old bundles are mapped in two states. -/
def Agrees (replayer other : Replayer) : Prop :=
  ∀ id, replayer.substitutions.contains id = true ↔ other.substitutions.contains id = true

variable {supply : IdSupply} {stock : Stock} {request : Request} {cache : Cache}
  {replayer other next : Replayer}

/-! ### Settling -/

theorem settle_orderly (request : Request) (cache : Cache) (replayer : Replayer) (id : BundleId) :
    (replayer.settle request cache id).Orderly (request.AdmitsFor id) fun result =>
      ∀ next, result = .ok next → ∃ new, next.substitutions = replayer.substitutions.add id new := by
  unfold settle
  split
  · rintro _ ⟨⟩
    exact ⟨_, rfl⟩
  · exact resolve_orderly replayer request id _

theorem settleAll_orderly (request : Request) (cache : Cache) (replayer : Replayer)
    (ids : List BundleId) :
    (replayer.settleAll request cache ids).Orderly request.Admits fun result =>
      result.1 = .ok () → ∀ id, result.2.substitutions.contains id = true ↔
        id ∈ ids ∨ replayer.substitutions.contains id = true := by
  induction ids generalizing replayer with
  | nil => exact fun _ id => by simp
  | cons id ids ih =>
      have hsettle := (settle_orderly request cache replayer id).mono (fun _ h => h.admits) fun _ h => h
      refine hsettle.andThen (fun _ => ⟨_, rfl, rfl, nofun⟩) fun next hnext => ?_
      obtain ⟨new, hsubstitutions⟩ := hnext next rfl
      refine (ih next).mono (fun _ h => h) ?_
      intro result h hok id'
      rw [h hok, hsubstitutions, Register.contains_add, List.mem_cons]
      tauto

theorem settleAll_append (request : Request) (cache : Cache) (replayer : Replayer)
    (ids ids' : List BundleId) :
    replayer.settleAll request cache (ids ++ ids') = (do
      match ← replayer.settleAll request cache ids with
      | (.error error, next) => return (.error error, next)
      | (.ok _, next) => next.settleAll request cache ids') := by
  induction ids generalizing replayer with
  | nil => rfl
  | cons id ids ih =>
      rw [List.cons_append, settleAll, settleAll, bind_assoc]
      congr 1
      funext outcome
      cases outcome with
      | error error => rfl
      | ok next => exact ih next

/-- The ways in which a bundle is settled, with the state and the stock after it. -/
inductive Settlement (supply : IdSupply) (request : Request) (cache : Cache) (replayer : Replayer)
    (id : BundleId) (before : Stock) : Replayer → Stock → Prop
  /-- It is beyond the cache and stands in for itself. -/
  | keep (hc : cache.get? id = none) :
      Settlement supply request cache replayer id before (replayer.map id (some id)) before
  | resolve {old : Bundle} {next : Replayer} {after : Stock} (hc : cache.get? id = some old)
      (hr : Resolution supply request replayer id old before next after) :
      Settlement supply request cache replayer id before next after

/-- Settling a bundle goes one of these ways, or it fails and leaves the stock alone. -/
theorem settle_ensures (request : Request) (cache : Cache) (replayer : Replayer) (id : BundleId) :
    (replayer.settle request cache id).Ensures supply stock fun result after =>
      (∀ error, result = .error error → after = stock) ∧
      ∀ next, result = .ok next →
        Settlement supply request cache replayer id stock next after := by
  unfold settle
  split
  · rename_i hc
    refine ⟨nofun, ?_⟩
    rintro _ ⟨⟩
    exact .keep hc
  · rename_i old hc
    refine (resolve_ensures replayer request id old).mono ?_
    rintro result after ⟨herror, hok⟩
    exact ⟨herror, fun next hn => .resolve hc (hok next hn)⟩

theorem Settlement.exists_add {id : BundleId} {after : Stock}
    (h : Settlement supply request cache replayer id stock next after) :
    ∃ new, next.substitutions = replayer.substitutions.add id new := by
  cases h with
  | keep => exact ⟨_, rfl⟩
  | resolve _ hr => exact hr.exists_add

/-- Settling bundles keeps what settling one keeps. -/
theorem settleAll_ensures {inv : Replayer → Stock → Prop}
    (hinv : ∀ (replayer next : Replayer) (id : BundleId) (before after : Stock),
      inv replayer before → Settlement supply request cache replayer id before next after →
        inv next after)
    (ids : List BundleId) (h : inv replayer stock) :
    (replayer.settleAll request cache ids).Ensures supply stock fun result after =>
      inv result.2 after := by
  induction ids generalizing replayer stock with
  | nil => exact h
  | cons id ids ih =>
      refine (settle_ensures request cache replayer id).bind ?_
      rintro outcome after ⟨herror, hok⟩
      cases outcome with
      | error error =>
          obtain rfl := herror error rfl
          exact h
      | ok next => exact ih (hinv replayer next id stock after h (hok next rfl))

/-! ### The order -/

namespace Agrees

theorem map (h : replayer.Agrees other) {id : BundleId} {new : Option BundleId}
    (hn : next.substitutions = replayer.substitutions.add id new) (new' : Option BundleId) :
    next.Agrees (other.map id new') := by
  intro id'
  have hother : (other.map id new').substitutions = other.substitutions.add id new' := rfl
  rw [hn, hother, Register.contains_add, Register.contains_add, h id']

theorem move_eq (h : replayer.Agrees other) (current : BundleId) (path : List BundleId) :
    replayer.move cache current path = other.move cache current path := by
  have hpending : ∀ path old, replayer.pending? path old = other.pending? path old := by
    intro path old
    simp only [pending?, h _]
  simp only [move, h current, hpending]

end Agrees

/-- Maps some bundles. -/
def mapAll (replayer : Replayer) (ids : List BundleId) : Replayer :=
  ids.foldl (fun replayer id => replayer.map id none) replayer

theorem contains_mapAll (replayer : Replayer) (ids : List BundleId) (id : BundleId) :
    (replayer.mapAll ids).substitutions.contains id = true ↔
      id ∈ ids ∨ replayer.substitutions.contains id = true := by
  induction ids generalizing replayer with
  | nil => simp [mapAll]
  | cons first ids ih =>
      have hstep : replayer.mapAll (first :: ids) = (replayer.map first none).mapAll ids := rfl
      rw [hstep, ih, map_substitutions, Register.contains_add, List.mem_cons]
      tauto

/-- Bundles that can be settled one after another: nothing stands in for any of them yet. -/
structure Unsettled (replayer : Replayer) (ids : List BundleId) : Prop where
  nodup : ids.Nodup
  not_contains : ∀ id ∈ ids, ¬ replayer.substitutions.contains id = true

namespace Unsettled

variable {id : BundleId} {ids ids' : List BundleId}

theorem nil (replayer : Replayer) : replayer.Unsettled [] :=
  ⟨List.nodup_nil, List.forall_mem_nil _⟩

theorem cons {new : Option BundleId} (hid : ¬ replayer.substitutions.contains id = true)
    (h : (replayer.map id new).Unsettled ids) : replayer.Unsettled (id :: ids) := by
  refine ⟨List.nodup_cons.mpr ⟨fun hmem => ?_, h.nodup⟩, List.forall_mem_cons.mpr ⟨hid, ?_⟩⟩
  · exact h.not_contains id hmem ((Register.contains_add _ id id new).mpr (.inl rfl))
  · intro other ho hc
    exact h.not_contains other ho ((Register.contains_add _ id other new).mpr (.inr hc))

theorem tail {new : Option BundleId} (h : replayer.Unsettled (id :: ids))
    (hn : next.substitutions = replayer.substitutions.add id new) : next.Unsettled ids := by
  obtain ⟨hid, hnodup⟩ := List.nodup_cons.mp h.nodup
  refine ⟨hnodup, fun other ho hc => ?_⟩
  rw [hn, Register.contains_add] at hc
  rcases hc with rfl | hc
  · exact hid ho
  · exact h.not_contains other (List.mem_cons_of_mem _ ho) hc

theorem append (h : replayer.Unsettled ids) (h' : (replayer.mapAll ids).Unsettled ids') :
    replayer.Unsettled (ids ++ ids') := by
  refine ⟨List.nodup_append.mpr ⟨h.nodup, h'.nodup, ?_⟩, ?_⟩
  · rintro id hid _ hid' rfl
    exact h'.not_contains id hid' ((contains_mapAll replayer ids id).mpr (.inl hid))
  · intro id hid hc
    rcases List.mem_append.mp hid with hid | hid
    · exact h.not_contains id hid hc
    · exact h'.not_contains id hid ((contains_mapAll replayer ids id).mpr (.inr hc))

end Unsettled

/-- A walk settles the bundles of a list. -/
theorem exists_itinerary_walk (cache : Cache) (start : Replayer) (moves : Nat)
    (path : List BundleId) : ∃ ids rest, start.Unsettled ids ∧
      ∀ (request : Request) (replayer : Replayer),
        replayer.Agrees start → replayer.walk request cache moves path = (do
          match ← replayer.settleAll request cache ids with
          | (.error error, next) => return (.error error, next)
          | (.ok _, next) => return (.ok rest, next)) := by
  induction moves generalizing start path with
  | zero =>
      refine ⟨[], path, .nil start, fun request replayer _ => ?_⟩
      cases path <;> rfl
  | succ moves ih =>
      cases path with
      | nil => exact ⟨[], [], .nil start, fun _ _ _ => rfl⟩
      | cons current path =>
          cases hmove : start.move cache current path with
          | leave =>
              obtain ⟨ids, rest, hids, h⟩ := ih start path
              refine ⟨ids, rest, hids, fun request replayer hagrees => ?_⟩
              rw [walk, hagrees.move_eq, hmove]
              exact h request replayer hagrees
          | keep =>
              obtain ⟨ids, rest, hids, h⟩ := ih (start.map current (some current)) path
              obtain ⟨hcurrent, hnone⟩ := move_eq_keep hmove
              refine ⟨current :: ids, rest, .cons hcurrent hids, fun request replayer hagrees => ?_⟩
              rw [walk, hagrees.move_eq, hmove, settleAll, settle, hnone]
              exact h request _ (hagrees.map rfl _)
          | enter parent =>
              obtain ⟨ids, rest, hids, h⟩ := ih start (parent :: current :: path)
              refine ⟨ids, rest, hids, fun request replayer hagrees => ?_⟩
              rw [walk, hagrees.move_eq, hmove]
              exact h request replayer hagrees
          | resolve old =>
              obtain ⟨ids, rest, hids, h⟩ := ih (start.map current (some current)) path
              obtain ⟨hcurrent, hsome, _⟩ := move_eq_resolve hmove
              refine ⟨current :: ids, rest, .cons hcurrent hids, fun request replayer hagrees => ?_⟩
              rw [walk, hagrees.move_eq, hmove, settleAll, settle, hsome, bind_assoc]
              refine (resolve_orderly replayer request current old).bind_congr ?_
              intro outcome hpost
              cases outcome with
              | error error => rfl
              | ok next =>
                  obtain ⟨new, hnew⟩ := hpost next rfl
                  exact h request next (hagrees.map hnew _)

theorem exists_itinerary_substitute (cache : Cache) (start : Replayer) (id : BundleId) :
    ∃ ids, start.Unsettled ids ∧ ∀ (request : Request) (replayer : Replayer), replayer.Agrees start →
      (do
        match ← replayer.substitute request cache id with
        | (.error error, next) => return (.error error, next)
        | (.ok _, next) => return (.ok (), next)) = replayer.settleAll request cache ids := by
  by_cases hid : start.substitutions.contains id = true
  · refine ⟨[], .nil start, fun request replayer hagrees => ?_⟩
    obtain ⟨new, hnew⟩ := Option.isSome_iff_exists.mp ((hagrees id).mpr hid)
    rw [substitute, hnew]
    rfl
  · obtain ⟨ids, rest, hids, h⟩ :=
      exists_itinerary_walk cache start (2 * (reach cache id).length) [id]
    refine ⟨ids, hids, fun request replayer hagrees => ?_⟩
    have hnone : replayer.substitutions.get? id = none := by
      have hnot := (hagrees id).not.mpr hid
      simpa [Register.contains] using hnot
    simp only [substitute, hnone, h request replayer hagrees, bind_assoc]
    calc _ = replayer.settleAll request cache ids >>= pure := by
            congr 1
            funext outcome
            obtain ⟨_ | _, next⟩ := outcome <;> rfl
      _ = _ := bind_pure _

/-- **The itinerary** of a replay: asking for some bundles settles the bundles of a list. -/
theorem exists_itinerary (cache : Cache) (start : Replayer) (todo : List BundleId) :
    ∃ ids, start.Unsettled ids ∧ ∀ (request : Request) (replayer : Replayer), replayer.Agrees start →
      replayer.substituteAll request cache todo = replayer.settleAll request cache ids := by
  induction todo generalizing start with
  | nil => exact ⟨[], .nil start, fun _ _ _ => rfl⟩
  | cons id todo ih =>
      obtain ⟨first, hfirstIds, hfirst⟩ := exists_itinerary_substitute cache start id
      obtain ⟨second, hsecondIds, hsecond⟩ := ih (start.mapAll first)
      refine ⟨first ++ second, hfirstIds.append hsecondIds, fun request replayer hagrees => ?_⟩
      -- what asking for the first bundle answers does not matter
      have hsplit : replayer.substituteAll request cache (id :: todo) = (do
          match ← replayer.settleAll request cache first with
          | (.error error, next) => return (.error error, next)
          | (.ok _, next) => next.substituteAll request cache todo) := by
        rw [substituteAll, ← hfirst request replayer hagrees, bind_assoc]
        congr 1
        funext outcome
        obtain ⟨_ | _, next⟩ := outcome <;> rfl
      rw [hsplit, settleAll_append]
      refine (settleAll_orderly request cache replayer first).bind_congr ?_
      rintro ⟨_ | _, next⟩ hpost
      · rfl
      · refine hsecond request next fun other => ?_
        rw [hpost rfl other, contains_mapAll, hagrees other]

end Replayer

end Provenance
