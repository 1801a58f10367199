import Provenance.Proofs.Resolution
import Provenance.Proofs.Trace
import Provenance.Replay.Run

/-!
# How a replay conducts itself

A dialogue is orderly if it makes no calls but those that it is allowed, and ends at the first call
that fails, with a result that reports the failure.  `Request.Consults` are the calls by which a
replay finds out what its request is about, `Request.Admits` all calls that it may make.

* `Request.replay_orderly`: a replay is orderly.
* `Orderly.run_keeps` and `Orderly.of_leads` say what follows for a run, and for its events.
-/

namespace Provenance

/-- Failures that may have come about by one of a store. -/
class Caused (ε : Type) where
  cause? : ε → Option StoreError

instance : Caused StoreError where
  cause? error := some error

instance : Caused ReplayError where
  cause?
    | .store error => some error
    | _ => none

/-- Results that tell by which failure of a store they came about, if by one. -/
class Reporting (α : Type) where
  failure? : α → Option StoreError

instance {ε α : Type} [Caused ε] : Reporting (Except ε α) where
  failure?
    | .error error => Caused.cause? error
    | .ok _ => none

instance {α σ : Type} [Reporting α] : Reporting (α × σ) where
  failure? result := Reporting.failure? result.1

/-- The calls that change nothing. -/
def Call.Reads : Call → Prop
  | createBundle _ _ _ | createWorksheetItem _ _ => False
  | _ => True

theorem Stock.Serves.eq_of_reads {supply : IdSupply} {before after : Stock} {call : Call}
    {outcome : call.Outcome} (h : before.Serves supply call outcome after) (hr : call.Reads) :
    after = before := by
  cases outcome with
  | error error => exact h
  | ok answer =>
      cases call with
      | fetchBundles => exact h.fetchBundles.2
      | fetchBundle => exact h.fetchBundle.2
      | fetchWorksheetsByBundle => exact h.fetchWorksheetsByBundle.2
      | fetchWorksheet => exact h.fetchWorksheet.2
      | createBundle => exact hr.elim
      | createWorksheetItem => exact hr.elim
      | searchBundles => exact h.searchBundles.2

/-- A store that never fails a call answers those that change nothing all from the same stock. -/
theorem Dialogue.exists_leads_of_reads {α : Type} (supply : IdSupply) (dialogue : Dialogue α)
    (stock : Stock) : ∃ events,
      dialogue.Leads supply stock events (dialogue.run (Stock.handle supply) stock).1
        (dialogue.run (Stock.handle supply) stock).2 ∧
      ((∀ event ∈ events, event.call.Reads) →
        ∀ event ∈ events, event.outcome = (Stock.handle supply event.call stock).1) := by
  induction dialogue generalizing stock with
  | done result => exact ⟨[], .done result stock, fun _ => List.forall_mem_nil _⟩
  | ask call more ih =>
      have hs : stock.Serves supply call (Stock.handle supply call stock).1
          (Stock.handle supply call stock).2 := Stock.handle_serves supply call stock
      obtain ⟨events, hl, hanswers⟩ :=
        ih (Stock.handle supply call stock).1 (Stock.handle supply call stock).2
      refine ⟨_ :: events, .ask hs hl, fun hreads => ?_⟩
      obtain ⟨hcall, hreads⟩ := List.forall_mem_cons.mp hreads
      rw [hs.eq_of_reads hcall] at hanswers
      exact List.forall_mem_cons.mpr ⟨rfl, hanswers hreads⟩

namespace Dialogue

open Caused Reporting

variable {α β γ ε σ : Type} [Reporting α] [Reporting β] [Caused ε] {allowed allowed' : Call → Prop}

/-- Every call is allowed, the first failure of one ends the dialogue and is reported, and `post`
holds of the result. -/
def Orderly (allowed : Call → Prop) : Dialogue α → (α → Prop) → Prop
  | done result, post => post result
  | ask call next, post => allowed call ∧
      (∀ error, ∃ result, next (.error error) = done result ∧ failure? result = some error ∧
        post result) ∧
      ∀ answer, (next (.ok answer)).Orderly allowed post

namespace Orderly

theorem mono {dialogue : Dialogue α} {post post' : α → Prop} (h : dialogue.Orderly allowed post)
    (ha : ∀ call, allowed call → allowed' call) (hp : ∀ result, post result → post' result) :
    dialogue.Orderly allowed' post' := by
  induction dialogue with
  | done result => exact hp result h
  | ask call more ih =>
      obtain ⟨hc, hfail, hmore⟩ := h
      refine ⟨ha call hc, ?_, fun answer => ih _ (hmore answer)⟩
      intro error
      obtain ⟨result, hdone, hreport, hpost⟩ := hfail error
      exact ⟨result, hdone, hreport, hp result hpost⟩

theorem bind {dialogue : Dialogue α} {next : α → Dialogue β} {mid : α → Prop} {post : β → Prop}
    (h : dialogue.Orderly allowed mid)
    (hfail : ∀ found error, failure? found = some error →
      ∃ result, next found = done result ∧ failure? result = some error ∧ post result)
    (hnext : ∀ found, mid found → (next found).Orderly allowed post) :
    (dialogue >>= next).Orderly allowed post := by
  induction dialogue with
  | done result => exact hnext result h
  | ask call more ih =>
      obtain ⟨hc, hend, hmore⟩ := h
      refine ⟨hc, ?_, fun answer => ih _ (hmore answer)⟩
      intro error
      obtain ⟨found, hdone, hreport, _⟩ := hend error
      obtain ⟨result, hnextDone, hresult⟩ := hfail found error hreport
      refine ⟨result, ?_, hresult⟩
      change (more (.error error) >>= next) = _
      rw [hdone]
      exact hnextDone

/-- What follows a dialogue that may fail only has to pass a failure on. -/
theorem andThen {dialogue : Dialogue (Except ε γ)} {next : Except ε γ → Dialogue β}
    {mid : Except ε γ → Prop} {post : β → Prop} (h : dialogue.Orderly allowed mid)
    (herror : ∀ error, ∃ result, next (.error error) = done result ∧
      failure? result = cause? error ∧ post result)
    (hok : ∀ found, mid (.ok found) → (next (.ok found)).Orderly allowed post) :
    (dialogue >>= next).Orderly allowed post := by
  refine h.bind ?_ ?_
  · rintro (error | found) failure hfailure
    · obtain ⟨result, hdone, hreport, hpost⟩ := herror error
      exact ⟨result, hdone, hreport.trans hfailure, hpost⟩
    · cases hfailure
  · rintro (error | found) hmid
    · obtain ⟨result, hdone, _, hpost⟩ := herror error
      rw [hdone]
      exact hpost
    · exact hok found hmid

theorem andThenWith {dialogue : Dialogue (Except ε γ × σ)} {next : Except ε γ × σ → Dialogue β}
    {mid : Except ε γ × σ → Prop} {post : β → Prop} (h : dialogue.Orderly allowed mid)
    (herror : ∀ error state, ∃ result, next (.error error, state) = done result ∧
      failure? result = cause? error ∧ post result)
    (hok : ∀ found state, mid (.ok found, state) →
      (next (.ok found, state)).Orderly allowed post) :
    (dialogue >>= next).Orderly allowed post := by
  refine h.bind ?_ ?_
  · rintro ⟨error | found, state⟩ failure hfailure
    · obtain ⟨result, hdone, hreport, hpost⟩ := herror error state
      exact ⟨result, hdone, hreport.trans hfailure, hpost⟩
    · cases hfailure
  · rintro ⟨error | found, state⟩ hmid
    · obtain ⟨result, hdone, _, hpost⟩ := herror error state
      rw [hdone]
      exact hpost
    · exact hok found state hmid

theorem call {c : Call} (h : allowed c) : (call c).Orderly allowed fun _ => True :=
  ⟨h, fun error => ⟨.error error, rfl, rfl, trivial⟩, fun _ => trivial⟩

omit [Reporting β] in
/-- How a dialogue goes on matters only for the results that it can have. -/
theorem bind_congr {dialogue : Dialogue α} {post : α → Prop} (h : dialogue.Orderly allowed post)
    {next next' : α → Dialogue β} (hn : ∀ result, post result → next result = next' result) :
    dialogue >>= next = dialogue >>= next' := by
  induction dialogue with
  | done result => exact hn result h
  | ask c more ih =>
      obtain ⟨_, hfail, hmore⟩ := h
      refine congrArg (ask c) (funext fun outcome => ?_)
      cases outcome with
      | error error =>
          obtain ⟨result, hdone, _, hpost⟩ := hfail error
          rw [hdone]
          exact hn result hpost
      | ok answer => exact ih _ (hmore answer)

theorem run_result {dialogue : Dialogue α} {post : α → Prop} (h : dialogue.Orderly allowed post)
    (handler : Handler σ) (state : σ) : post (dialogue.run handler state).1 := by
  induction dialogue generalizing state with
  | done result => exact h
  | ask call more ih =>
      obtain ⟨_, hfail, hmore⟩ := h
      rw [run]
      cases houtcome : (handler call state).1 with
      | error error =>
          obtain ⟨result, hdone, _, hpost⟩ := hfail error
          rw [hdone]
          exact hpost
      | ok answer => exact ih _ (hmore answer) _

/-- What every allowed call keeps is kept by a run. -/
theorem run_keeps {handler : Handler σ} {inv : σ → Prop} {dialogue : Dialogue α}
    {post : α → Prop} (h : dialogue.Orderly allowed post)
    (hh : ∀ call state, allowed call → inv state → inv (handler call state).2) {state : σ}
    (hi : inv state) : inv (dialogue.run handler state).2 := by
  induction dialogue generalizing state with
  | done result => exact hi
  | ask call more ih =>
      obtain ⟨hc, hfail, hmore⟩ := h
      have hnext := hh call state hc hi
      rw [run]
      cases houtcome : (handler call state).1 with
      | error error =>
          obtain ⟨result, hdone, _⟩ := hfail error
          rw [hdone]
          exact hnext
      | ok answer => exact ih _ (hmore answer) hnext

variable {supply : IdSupply} {before after : Stock} {events : List Event} {result : α}
  {dialogue : Dialogue α} {post : α → Prop}

/-- A dialogue that may only read leaves the stock alone. -/
theorem leaves (h : dialogue.Orderly allowed post) (hr : ∀ call, allowed call → call.Reads) :
    dialogue.Ensures supply before fun result after => after = before ∧ post result := by
  induction dialogue with
  | done result => exact ⟨rfl, h⟩
  | ask call more ih =>
      obtain ⟨hc, hfail, hmore⟩ := h
      intro outcome after hs
      obtain rfl := hs.eq_of_reads (hr call hc)
      cases outcome with
      | error error =>
          obtain ⟨result, hdone, _, hpost⟩ := hfail error
          rw [hdone]
          exact ⟨rfl, hpost⟩
      | ok answer => exact ih _ (hmore answer)

theorem of_leads (h : dialogue.Orderly allowed post)
    (hl : dialogue.Leads supply before events result after) :
    post result ∧ (∀ event ∈ events, allowed event.call) ∧
      (failure? result = none → ∀ event ∈ events, event.Succeeded) := by
  induction hl with
  | done => exact ⟨h, List.forall_mem_nil _, fun _ => List.forall_mem_nil _⟩
  | @ask call next outcome before mid after events result _ hl ih =>
      obtain ⟨hc, hfail, hmore⟩ := h
      cases outcome with
      | error error =>
          obtain ⟨reported, hdone, hreport, hpost⟩ := hfail error
          rw [hdone] at hl
          obtain ⟨rfl, rfl, rfl⟩ := Leads.of_pure hl
          refine ⟨hpost, ?_, ?_⟩
          · intro event he
            obtain rfl := List.mem_singleton.mp he
            exact hc
          · intro hnone
            rw [hreport] at hnone
            cases hnone
      | ok answer =>
          obtain ⟨hpost, hallowed, hsucceeded⟩ := ih (hmore answer)
          refine ⟨hpost, ?_, ?_⟩
          · intro event he
            rcases List.mem_cons.mp he with rfl | he
            · exact hc
            · exact hallowed event he
          · intro hnone event he
            rcases List.mem_cons.mp he with rfl | he
            · exact ⟨answer, rfl⟩
            · exact hsucceeded hnone event he

end Orderly

end Dialogue

open Dialogue

namespace Request

/-! ### The calls that a request allows -/

/-- Everything that a request names. -/
def specs (request : Request) : List String :=
  request.oldOutput.toList ++ request.oldInputs ++ request.newInputs

/-- The calls that find out what a request is about. -/
def Consults (request : Request) : Call → Prop
  | .fetchBundles specs depth =>
    (∃ spec ∈ request.specs, specs = [spec] ∧ depth = none) ∨
      (request.oldOutput = none ∧ specs = request.oldInputs ∧ depth = some request.depth)
  | .fetchBundle _ => True
  | _ => False

/-- The calls that a replay of a request may make. -/
def Admits (request : Request) : Call → Prop
  | .fetchBundles _ _ | .fetchBundle _ => True
  | .searchBundles _ _ => request.dryRun = false ∧ request.memoize = true
  | .createBundle _ target place => request.dryRun = false ∧ target = request.worksheet ∧
      ∃ old, place = Replayer.placement request old
  | .fetchWorksheet _ | .fetchWorksheetsByBundle _ =>
    request.dryRun = false ∧ request.shadow = false
  | .createWorksheetItem _ target =>
    request.dryRun = false ∧ request.shadow = false ∧ target = request.worksheet

/-- The calls by which a replay of a request may deal with one old bundle. -/
def AdmitsFor (request : Request) (old : BundleId) : Call → Prop
  | .searchBundles _ _ => request.dryRun = false ∧ request.memoize = true
  | .createBundle _ target place => request.dryRun = false ∧ target = request.worksheet ∧
      place = Replayer.placement request old
  | _ => False

variable {request : Request}

theorem AdmitsFor.admits {call : Call} {old : BundleId} (h : request.AdmitsFor old call) :
    request.Admits call := by
  cases call with
  | searchBundles => exact h
  | createBundle => exact ⟨h.1, h.2.1, old, h.2.2⟩
  | fetchBundles => exact h.elim
  | fetchBundle => exact h.elim
  | fetchWorksheetsByBundle => exact h.elim
  | fetchWorksheet => exact h.elim
  | createWorksheetItem => exact h.elim

theorem Consults.admits {call : Call} (h : request.Consults call) (other : Request) :
    other.Admits call := by
  cases call <;> trivial

theorem Consults.reads {call : Call} (h : request.Consults call) : call.Reads := by
  cases call <;> trivial

/-! ### Finding out what a request is about -/

section Reading

variable {allowed : Call → Prop}

theorem resolveSpec_orderly {spec : String} (h : allowed (.fetchBundles [spec] none)) :
    (resolveSpec spec).Orderly allowed fun _ => True := by
  refine (Orderly.call h).andThen (fun _ => ⟨_, rfl, rfl, trivial⟩) fun found _ => ?_
  dsimp only
  cases found.head?.bind Bundle.id <;> trivial

theorem resolveSpecs_orderly {specs : List String}
    (h : ∀ spec ∈ specs, allowed (.fetchBundles [spec] none)) :
    (resolveSpecs specs).Orderly allowed fun _ => True := by
  induction specs with
  | nil => trivial
  | cons spec specs ih =>
      have hspec := resolveSpec_orderly (h spec List.mem_cons_self)
      have hspecs := ih fun other ho => h other (List.mem_cons_of_mem _ ho)
      refine hspec.andThen (fun _ => ⟨_, rfl, rfl, trivial⟩) fun id _ => ?_
      exact hspecs.andThen (fun _ => ⟨_, rfl, rfl, trivial⟩) fun ids _ => trivial

theorem resolveOptional_orderly {spec : Option String}
    (h : ∀ own, spec = some own → allowed (.fetchBundles [own] none)) :
    (resolveOptional spec).Orderly allowed fun _ => True := by
  cases spec with
  | none => trivial
  | some own =>
      exact (resolveSpec_orderly (h own rfl)).andThen (fun _ => ⟨_, rfl, rfl, trivial⟩)
        fun id _ => trivial

theorem resolved_orderly (request : Request) :
    request.resolved.Orderly request.Consults fun result => ∀ named, result = .ok named →
      ∃ oldOutput oldInputs newInputs,
        named = { request with oldOutput, oldInputs, newInputs } := by
  have hspec : ∀ spec ∈ request.specs, request.Consults (.fetchBundles [spec] none) :=
    fun spec hspec => .inl ⟨spec, hspec, rfl, rfl⟩
  have houtput : (resolveOptional request.oldOutput).Orderly request.Consults fun _ => True :=
    resolveOptional_orderly fun own hown => hspec own (by simp [specs, hown])
  have hold : (resolveSpecs request.oldInputs).Orderly request.Consults fun _ => True :=
    resolveSpecs_orderly fun spec h => hspec spec (by simp [specs, h])
  have hnew : (resolveSpecs request.newInputs).Orderly request.Consults fun _ => True :=
    resolveSpecs_orderly fun spec h => hspec spec (by simp [specs, h])
  refine houtput.andThen (fun _ => ⟨_, rfl, rfl, nofun⟩) fun oldOutput _ => ?_
  refine hold.andThen (fun _ => ⟨_, rfl, rfl, nofun⟩) fun oldInputs _ => ?_
  refine hnew.andThen (fun _ => ⟨_, rfl, rfl, nofun⟩) fun newInputs _ => ?_
  intro named hnamed
  cases hnamed
  exact ⟨oldOutput, oldInputs, newInputs, rfl⟩

theorem fetchSeeds_orderly (request : Request) :
    request.fetchSeeds.Orderly request.Consults fun _ => True := by
  unfold fetchSeeds
  split
  · rename_i output ho
    exact Orderly.call (.inl ⟨output, by simp [specs, ho], rfl, rfl⟩)
  · rename_i ho
    exact Orderly.call (.inr ⟨ho, rfl, rfl⟩)

end Reading

end Request

namespace Cache

variable {allowed : Call → Prop}

theorem ensure_orderly (h : ∀ id, allowed (.fetchBundle id)) (cache : Cache) (id : BundleId) :
    (cache.ensure id).Orderly allowed fun _ => True := by
  unfold ensure
  split
  · trivial
  · refine (Orderly.call (h id)).bind ?_ ?_
    · rintro (error | bundle) _ ⟨⟩
      exact ⟨_, rfl, rfl, trivial⟩
    · rintro (error | bundle) _ <;> trivial

theorem round_orderly (h : ∀ id, allowed (.fetchBundle id)) (found visited : List BundleId)
    (cache : Cache) (frontier : List BundleId) :
    (cache.round found visited frontier).Orderly allowed fun _ => True := by
  induction frontier generalizing found visited cache with
  | nil => trivial
  | cons id frontier ih =>
      rw [round]
      split
      · exact ih found visited cache
      · exact (ensure_orderly h cache id).andThen (fun _ => ⟨_, rfl, rfl, trivial⟩)
          fun ensured _ => ih _ _ ensured.2

theorem rounds_orderly (h : ∀ id, allowed (.fetchBundle id)) (collected visited : List BundleId)
    (cache : Cache) (depth : Nat) (frontier : List BundleId) :
    (cache.rounds collected visited depth frontier).Orderly allowed fun _ => True := by
  induction depth generalizing collected visited cache frontier with
  | zero => trivial
  | succ depth ih =>
      cases frontier with
      | nil => trivial
      | cons id frontier =>
          rw [rounds]
          · exact (round_orderly h [] visited cache (id :: frontier)).andThenWith
              (fun _ _ => ⟨_, rfl, rfl, trivial⟩) fun round next _ => ih _ _ next _
          · exact nofun

end Cache

namespace Request

/-- Collecting the graph makes no calls but those that find out what the request is about. -/
theorem collect_orderly (request : Request) :
    request.collect.Orderly request.Consults fun _ => True := by
  unfold collect
  refine (fetchSeeds_orderly request).andThen (fun _ => ⟨_, rfl, rfl, trivial⟩) fun found _ => ?_
  have hcollect : ((Cache.ofBundles found).collectAncestors (Cache.idsOf found)
      request.depth).Orderly request.Consults fun _ => True :=
    Cache.rounds_orderly (fun _ => trivial) _ [] _ _ _
  exact hcollect.andThenWith (fun _ _ => ⟨_, rfl, rfl, trivial⟩) fun closure cache _ => trivial

end Request

/-! ### Substituting -/

namespace Replayer

variable {request : Request}

theorem equivalent_orderly (request : Request) (command : Option String) (wanted : Bundle)
    (id : BundleId) :
    (equivalent request command wanted).Orderly (request.AdmitsFor id) fun _ => True := by
  unfold equivalent
  split
  · rename_i h
    obtain ⟨hm, hd⟩ := h
    have hcall : request.AdmitsFor id (.searchBundles command wanted.keys) := ⟨by simpa using hd, hm⟩
    exact (Orderly.call hcall).andThen (fun _ => ⟨_, rfl, rfl, trivial⟩) fun _ _ => trivial
  · trivial

theorem create_orderly (hd : request.dryRun = false) (id : BundleId) (wanted : Bundle) :
    (create request id wanted).Orderly (request.AdmitsFor id) fun _ => True := by
  unfold create
  split
  · trivial
  · have hcall : request.AdmitsFor id
        (.createBundle wanted request.worksheet (placement request id)) := ⟨hd, rfl, rfl⟩
    refine (Orderly.call hcall).andThen (fun _ => ⟨_, rfl, rfl, trivial⟩) fun bundle _ => ?_
    dsimp only
    split <;> trivial

theorem resolve_orderly (replayer : Replayer) (request : Request) (id : BundleId) (old : Bundle) :
    (replayer.resolve request id old).Orderly (request.AdmitsFor id) fun result =>
      ∀ next, result = .ok next →
        ∃ new, next.substitutions = replayer.substitutions.add id new := by
  unfold resolve
  split
  · rintro _ ⟨⟩
    exact ⟨_, rfl⟩
  · refine (equivalent_orderly request old.command _ id).andThen (fun _ => ⟨_, rfl, rfl, nofun⟩)
      fun found _ => ?_
    cases hd : request.dryRun with
    | true =>
        rintro _ ⟨⟩
        exact ⟨_, rfl⟩
    | false =>
        cases found with
        | some existing =>
            rintro _ ⟨⟩
            exact ⟨_, rfl⟩
        | none =>
            refine (create_orderly hd id _).andThen (fun _ => ⟨_, rfl, rfl, nofun⟩) fun made _ => ?_
            rintro _ ⟨⟩
            exact ⟨_, rfl⟩

theorem walk_orderly (request : Request) (cache : Cache) (replayer : Replayer) (moves : Nat)
    (path : List BundleId) :
    (replayer.walk request cache moves path).Orderly request.Admits fun _ => True := by
  induction moves generalizing replayer path with
  | zero => cases path <;> trivial
  | succ moves ih =>
      cases path with
      | nil => trivial
      | cons current path =>
          rw [walk]
          split
          · exact ih replayer path
          · exact ih _ path
          · exact ih replayer _
          · rename_i old _
            have hresolve := (resolve_orderly replayer request current old).mono
              (fun _ h => h.admits) fun _ h => h
            exact hresolve.andThen (fun _ => ⟨_, rfl, rfl, trivial⟩) fun next _ => ih next path

theorem substitute_orderly (request : Request) (cache : Cache) (replayer : Replayer)
    (id : BundleId) :
    (replayer.substitute request cache id).Orderly request.Admits fun _ => True := by
  unfold substitute
  split
  · trivial
  · exact (walk_orderly request cache replayer _ [id]).andThenWith
      (fun _ _ => ⟨_, rfl, rfl, trivial⟩) fun _ _ _ => trivial

theorem substituteAll_orderly (request : Request) (cache : Cache) (replayer : Replayer)
    (ids : List BundleId) :
    (replayer.substituteAll request cache ids).Orderly request.Admits fun _ => True := by
  induction ids generalizing replayer with
  | nil => trivial
  | cons id ids ih =>
      exact (substitute_orderly request cache replayer id).andThenWith
        (fun _ _ => ⟨_, rfl, rfl, trivial⟩) fun _ next _ => ih next

end Replayer

/-! ### Laying out -/

namespace Placement

variable {allowed : Call → Prop} {target : WorksheetId}

theorem putItems_orderly (h : ∀ item, allowed (.createWorksheetItem item target))
    (items : List WorksheetItem) :
    (putItems target items).Orderly allowed fun _ => True := by
  induction items with
  | nil => trivial
  | cons item items ih =>
      exact (Orderly.call (h item)).andThen (fun _ => ⟨_, rfl, rfl, trivial⟩) fun _ _ => ih

theorem place_orderly (hb : ∀ id, allowed (.fetchWorksheetsByBundle id))
    (hw : ∀ id, allowed (.fetchWorksheet id))
    (hi : ∀ item, allowed (.createWorksheetItem item target)) (plan : Plan)
    (substitutions : Substitutions) (created : List BundleId) (anchor : Option BundleId)
    (skipPrelude : Bool) :
    (place plan substitutions created target anchor skipPrelude).Orderly allowed fun _ => True := by
  have hhosts : (hosts anchor).Orderly allowed fun _ => True := by
    cases anchor with
    | none => trivial
    | some id => exact Orderly.call (hb id)
  have hlayout : ∀ host, (hostLayout substitutions created host).Orderly allowed fun _ => True := by
    intro host
    cases host with
    | none => trivial
    | some id =>
        exact (Orderly.call (hw id)).andThen (fun _ => ⟨_, rfl, rfl, trivial⟩) fun _ _ => trivial
  unfold place
  refine hhosts.andThen (fun _ => ⟨_, rfl, rfl, trivial⟩) fun found _ => ?_
  refine (hlayout _).andThen (fun _ => ⟨_, rfl, rfl, trivial⟩) fun layout _ => ?_
  exact (putItems_orderly hi _).andThen (fun _ => ⟨_, rfl, rfl, trivial⟩) fun _ _ => trivial

end Placement

namespace Request

theorem layOut_orderly (request : Request) (replayer : Replayer) :
    (request.layOut replayer).Orderly request.Admits fun _ => True := by
  unfold layOut
  split
  · trivial
  · rename_i h
    obtain ⟨hd, hs⟩ : request.dryRun = false ∧ request.shadow = false := by simpa using h
    have hplace : (Placement.place replayer.plan replayer.substitutions replayer.created
        request.worksheet request.anchor? request.skipPrelude).Orderly request.Admits
        fun _ => True :=
      Placement.place_orderly (fun _ => ⟨hd, hs⟩) (fun _ => ⟨hd, hs⟩) (fun _ => ⟨hd, hs, rfl⟩)
        _ _ _ _ _
    exact hplace.andThen (fun _ => ⟨_, rfl, rfl, trivial⟩) fun _ _ => trivial

/-! ### The whole replay -/

/-- What a replay does before it lays out: it resolves the specs, collects the graph and finds what
stands in for its targets.  The result is the request in ids, with the last state. -/
def traverse (request : Request) : Dialogue (Except ReplayError (Request × Replayer)) :=
  match request.validate with
  | .error error => return .error error
  | .ok () => do
    match ← request.resolved with
    | .error error => return .error error
    | .ok named =>
      match ← named.collect with
      | .error error => return .error (.store error)
      | .ok (cache, closure) =>
        match ← (Replayer.start named).substituteAll named cache (named.targets closure) with
        | (.error error, _) => return .error error
        | (.ok (), replayer) => return .ok (named, replayer)

/-- Lays out what a traversal made. -/
def finish (traversed : Request × Replayer) : Dialogue (Except ReplayError Replayed) := do
  match ← traversed.1.layOut traversed.2 with
  | .error error => return .error (.store error)
  | .ok placement => return .ok ⟨traversed.2.plan, placement⟩

/-- A replay lays out what its traversal made. -/
theorem replay_eq (request : Request) :
    request.replay = (do
      match ← request.traverse with
      | .error error => return .error error
      | .ok traversed => finish traversed) := by
  unfold replay traverse
  cases request.validate with
  | error error => rfl
  | ok _ =>
      dsimp only
      rw [bind_assoc]
      congr 1
      funext outcome
      cases outcome with
      | error error => rfl
      | ok named =>
          dsimp only
          unfold replayResolved
          rw [bind_assoc]
          congr 1
          funext outcome
          cases outcome with
          | error error => rfl
          | ok collected =>
              dsimp only
              rw [bind_assoc]
              congr 1
              funext outcome
              obtain ⟨_ | _, replayer⟩ := outcome <;> rfl

theorem traverse_orderly (request : Request) :
    request.traverse.Orderly request.Admits fun result => ∀ named replayer,
      result = .ok (named, replayer) → ∃ oldOutput oldInputs newInputs,
        named = { request with oldOutput, oldInputs, newInputs } := by
  unfold traverse
  split
  · exact nofun
  · have hresolved := (resolved_orderly request).mono (fun _ h => h.admits request) fun _ h => h
    refine hresolved.andThen (fun _ => ⟨_, rfl, rfl, nofun⟩) fun named hnamed => ?_
    have hcollect := (collect_orderly named).mono (fun _ h => h.admits request) fun _ h => h
    refine hcollect.andThen (fun _ => ⟨_, rfl, rfl, nofun⟩) fun collected _ => ?_
    obtain ⟨cache, closure⟩ := collected
    have hadmits : ∀ call, named.Admits call → request.Admits call := by
      obtain ⟨_, _, _, rfl⟩ := hnamed named rfl
      exact fun _ h => h
    have hsubstitute := (Replayer.substituteAll_orderly named cache (.start named)
      (named.targets closure)).mono hadmits fun _ h => h
    refine hsubstitute.andThenWith (fun _ _ => ⟨_, rfl, rfl, nofun⟩) fun _ replayer _ => ?_
    rintro _ _ ⟨⟩
    exact hnamed named rfl

/-- **A replay is orderly**: it makes no calls but those that its request admits, and the first
failure of one ends it and is what it reports. -/
theorem replay_orderly (request : Request) :
    request.replay.Orderly request.Admits fun _ => True := by
  rw [replay_eq]
  refine (traverse_orderly request).andThen (fun _ => ⟨_, rfl, rfl, trivial⟩) fun traversed h => ?_
  obtain ⟨named, replayer⟩ := traversed
  obtain ⟨oldOutput, oldInputs, newInputs, rfl⟩ := h named replayer rfl
  have hlayout := layOut_orderly { request with oldOutput, oldInputs, newInputs } replayer
  exact hlayout.andThen (fun _ => ⟨_, rfl, rfl, trivial⟩) fun _ _ => trivial

end Request

end Provenance
