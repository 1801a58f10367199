import Provenance.Proofs.Growth
import Provenance.Proofs.Layout
import Provenance.Proofs.Memoization
import Provenance.Proofs.Phases

/-!
# Replaying after an attempt

A replay that takes equivalent bundles over can be asked for again, whether an earlier attempt has
ended well or was broken off.  What the attempt created is found again, and the rest is created as
it would have been without it.

This takes that the later store answers as the earlier one did what the request asks about before it
substitutes: `Request.Echoes`.  A request that names an output asks about bundles by their ids only,
which always are answered as before (`Request.echoes_of_output`).

* `Request.replay_after`: replaying after an attempt, on any later stock that echoes the earlier one.
* `Request.replay_resumes`: a replay resumes one that one failure has broken off, and after one that
  has ended well it creates nothing.
-/

namespace Provenance

open Dialogue Reporting

variable {supply : IdSupply} {request : Request} {before after later whole : Stock}

/-! ### What is answered as before -/

namespace Request

/-- What a request asks about before it substitutes anything is answered from a later stock as from
an earlier one. -/
def Echoes (request : Request) (supply : IdSupply) (earlier later : Stock) : Prop :=
  ∀ (call : Call) (answer : call.Answer), request.Consults call →
    earlier.Serves supply call (.ok answer) earlier →
    Stock.handle supply call later = (.ok answer, later)

theorem Echoes.run_again {α : Type} [Reporting α] {dialogue : Dialogue α} {post : α → Prop}
    {events : List Event} {result : α} (he : request.Echoes supply before later)
    (ho : dialogue.Orderly request.Consults post)
    (hl : dialogue.Leads supply before events result after) (hok : failure? result = none) :
    dialogue.run (Stock.handle supply) later = (result, later) := by
  induction hl with
  | done => rfl
  | @ask call next outcome before mid after events result hs hl ih =>
      obtain ⟨hc, hfail, hmore⟩ := ho
      obtain rfl := hs.eq_of_reads hc.reads
      cases outcome with
      | error error =>
          obtain ⟨reported, hdone, hreport, _⟩ := hfail error
          rw [hdone] at hl
          obtain ⟨_, rfl, _⟩ := hl.of_pure
          rw [hreport] at hok
          cases hok
      | ok answer =>
          rw [run, he call answer hc hs]
          exact ih he (hmore answer) hok

end Request

namespace Contents

variable {contents earlier : Contents} {id : BundleId}

theorem bundle?_of_prefix (h : earlier.bundles <+: contents.bundles) (hid : id ∈ earlier.ids) :
    contents.bundle? id = earlier.bundle? id := by
  obtain ⟨rest, hrest⟩ := h
  obtain ⟨bundle, hb⟩ := Option.isSome_iff_exists.mp (bundle?_isSome_iff.mpr hid)
  have hfound : earlier.bundles.find? (fun bundle => bundle.id = some id) = some bundle := hb
  rw [hb, bundle?, ← hrest, List.find?_append, hfound, Option.some_or]

theorem fetchBundle_of_prefix (h : earlier.bundles <+: contents.bundles) {found : Bundle}
    (hf : earlier.fetchBundle id = .ok found) : contents.fetchBundle id = .ok found := by
  have hid : id ∈ earlier.ids := by
    rw [fetchBundle] at hf
    split at hf
    · rename_i bundle hb
      exact bundle?_isSome_iff.mp (by rw [hb]; rfl)
    · cases hf
  rw [fetchBundle, bundle?_of_prefix h hid]
  exact hf

theorem resolveAll_of_prefix (h : earlier.bundles <+: contents.bundles) {specs : List BundleId}
    (hs : ∀ id ∈ specs, id ∈ earlier.ids) (seen : List BundleId) :
    contents.resolveAll seen specs = earlier.resolveAll seen specs := by
  induction specs generalizing seen with
  | nil => rfl
  | cons spec specs ih =>
      have hspec : contents.resolve? spec = earlier.resolve? spec := by
        have hid := hs spec List.mem_cons_self
        obtain ⟨bundle, hb⟩ := Option.isSome_iff_exists.mp (bundle?_isSome_iff.mpr hid)
        simp only [resolve?, bundle?_of_prefix h hid, hb]
      have hrest := ih fun id hid => hs id (List.mem_cons_of_mem _ hid)
      simp only [resolveAll, hspec, hrest]

end Contents

namespace Stock

theorem serves_fetchBundle {id : BundleId} {found : Bundle}
    (h : later.contents.fetchBundle id = .ok found) :
    later.Serves supply (.fetchBundle id) (.ok found) later := by
  refine ⟨.ofStock later, .ofStock later, rfl, ?_, rfl⟩
  change (later.contents.fetchBundle id).map _ = _
  rw [h]
  rfl

theorem serves_fetchBundles {specs : List String} {depth : Option Nat} {found : List Bundle}
    (h : later.contents.fetchBundles specs depth = .ok found) :
    later.Serves supply (.fetchBundles specs depth) (.ok found) later := by
  refine ⟨.ofStock later, .ofStock later, rfl, ?_, rfl⟩
  change (later.contents.fetchBundles specs depth).map _ = _
  rw [h]
  rfl

end Stock

namespace Request

theorem Named.mem_ids (h : request.Named before.contents) {id : BundleId} (hid : id ∈ request.specs) :
    id ∈ before.contents.ids := by
  rw [specs, List.mem_append, List.mem_append, Option.mem_toList] at hid
  rcases hid with (hid | hid) | hid
  · exact h.oldOutput id hid
  · exact h.oldInputs id hid
  · exact h.newInputs id hid

/-- Bundles stored behind the others change no answers, if fetching the old inputs with what is below
them gives what it gave. -/
theorem echoes_of_prefix (hn : request.Named before.contents)
    (hp : before.contents.bundles <+: later.contents.bundles)
    (hi : request.oldOutput = none →
      later.contents.fetchBundles request.oldInputs (some request.depth) =
        before.contents.fetchBundles request.oldInputs (some request.depth)) :
    request.Echoes supply before later := by
  intro call answer hc hs
  cases call with
  | fetchBundle id =>
      have hfound := Contents.fetchBundle_of_prefix hp hs.fetchBundle.1
      exact (Stock.serves_fetchBundle hfound).handle_eq
  | fetchBundles specs depth =>
      have hfound := hs.fetchBundles.1
      refine (Stock.serves_fetchBundles ?_).handle_eq
      rcases hc with ⟨spec, hspec, rfl, rfl⟩ | ⟨ho, rfl, rfl⟩
      · have hids : ∀ id ∈ [spec], id ∈ before.contents.ids :=
          List.forall_mem_singleton.mpr (hn.mem_ids hspec)
        rw [← hfound, Contents.fetchBundles, Contents.resolveAll_of_prefix hp hids]
        rfl
      · rw [hi ho, hfound]
  | fetchWorksheetsByBundle => exact hc.elim
  | fetchWorksheet => exact hc.elim
  | createBundle => exact hc.elim
  | createWorksheetItem => exact hc.elim
  | searchBundles => exact hc.elim

/-- A request that names an output asks about no bundles but by their ids. -/
theorem echoes_of_output (hn : request.Named before.contents)
    (ho : request.oldOutput.isSome = true)
    (hp : before.contents.bundles <+: later.contents.bundles) :
    request.Echoes supply before later := by
  refine echoes_of_prefix hn hp fun hnone => ?_
  rw [hnone] at ho
  cases ho

end Request

/-! ### What a replay knows about its plan -/

namespace Replayer

/-- What was created is in the plan, and what is in the plan is the latest of its kind. -/
structure Current (replayer : Replayer) (contents : Contents) : Prop where
  created : ∀ id ∈ replayer.created, id ∈ replayer.plan.newIds
  latest : contents.Latest replayer.plan

theorem Current.start (request : Request) (contents : Contents) :
    (start request).Current contents :=
  ⟨List.forall_mem_nil _, List.forall_mem_nil _⟩

theorem Current.kept (hd : request.dryRun = false) (hm : request.memoize = true) (cache : Cache)
    (start : Replayer) (ids : List BundleId) :
    Kept supply request cache start ids fun replayer stock => replayer.Current stock.contents where
  keep h _ _ _ := ⟨h.created, h.latest⟩
  resolve h _ _ _ _ hr := ⟨hr.created_mem_newIds h.created, hr.latest hd hm h.latest⟩

end Replayer

/-! ### Traversing again -/

namespace Request

theorem run_traverse_named (hn : request.Named before.contents) {named : Request} {last : Replayer}
    (h : request.traverse.run (Stock.handle supply) before = (.ok (named, last), whole)) :
    named = request := by
  obtain ⟨_, hleads⟩ := exists_leads_of_run h
  obtain ⟨_, _, _, _, _, _, hnamed, _⟩ := of_leads_traverse_ok hleads
  exact hnamed.trans (inIds_of_named hn)

/-- **Traversing after an attempt.**  A traversal that succeeds does so after any attempt, on a stock
with the bundles that the attempt has left.  After an attempt that failed it ends where it would have
ended without it, after one that succeeded it does nothing. -/
theorem traverse_after (hd : request.dryRun = false) (hm : request.memoize = true)
    (hn : request.Named before.contents) {last : Replayer} {attempted : Stock}
    (hwhole : request.traverse.run (Stock.handle supply) before = (.ok (request, last), whole))
    {events : List Event} {result : Except ReplayError (Request × Replayer)}
    (hattempt : request.traverse.Leads supply before events result attempted)
    (hb : later.contents.bundles = attempted.contents.bundles)
    (hf : ∀ error, result = .error error → later = attempted)
    (he : request.Echoes supply before later) :
    ∃ last' after, request.traverse.run (Stock.handle supply) later =
        (.ok (request, last'), after) ∧ last'.Like last ∧
      (((∃ error, result = .error error) ∧ after = whole) ∨
        ((∃ traversed, result = .ok traversed) ∧ after = later ∧ attempted = whole)) := by
  obtain ⟨_, hleads⟩ := exists_leads_of_run hwhole
  obtain ⟨_, _, _, cache, closure, hvalid, _, hresolved, hcollect, hsubstitute, _⟩ :=
    of_leads_traverse_ok hleads
  rcases of_leads_traverse hattempt with
    ⟨⟨error, rfl⟩, rfl⟩ |
      ⟨_, _, _, named, cache', closure', outcome, _, hnamed, _, hcollect', hattempted, _, rfl⟩
  · -- nothing was done
    obtain rfl := hf error rfl
    exact ⟨last, whole, hwhole, .refl last, .inl ⟨⟨error, rfl⟩, rfl⟩⟩
  · -- both have collected the same, so they settle the bundles of one list
    obtain rfl : request = named := (hnamed.trans (inIds_of_named hn)).symm
    obtain ⟨rfl, rfl⟩ : cache' = cache ∧ closure' = closure := by
      have hrun := hcollect.run_eq ((collect_orderly request).of_leads hcollect |>.2.2 rfl)
      rw [hcollect'.run_eq ((collect_orderly request).of_leads hcollect' |>.2.2 rfl)] at hrun
      cases hrun
      exact ⟨rfl, rfl⟩
    have horderly := Replayer.substituteAll_orderly request cache' (.start request)
      (request.targets closure')
    have hsettled := hsubstitute.run_eq (horderly.of_leads hsubstitute |>.2.2 rfl)
    obtain ⟨ids, _, hids⟩ :=
      Replayer.exists_itinerary cache' (.start request) (request.targets closure')
    have hitinerary := hids request (.start request) fun _ => Iff.rfl
    rw [hitinerary] at hsettled hattempted
    have hfailed : ∀ error, outcome.1 = .error error → later = attempted := by
      intro error herror
      obtain ⟨_, replayer⟩ := outcome
      cases herror
      exact hf error rfl
    obtain ⟨last', after, hrun, hlike, hend⟩ := Replayer.settleAll_resume hd hm
      (Replayer.Current.start request before.contents).latest hsettled hattempted hb hfailed
      (.refl (.start request))
    rw [← hitinerary] at hrun
    have hresolvedAgain := he.run_again (resolved_orderly request) hresolved rfl
    have hcollectAgain := he.run_again (collect_orderly request) hcollect rfl
    refine ⟨last', after, run_traverse hvalid hresolvedAgain hcollectAgain hrun, hlike, ?_⟩
    obtain ⟨_ | _, replayer⟩ := outcome
    · rcases hend with ⟨_, hafter⟩ | ⟨hok, _⟩
      · exact .inl ⟨⟨_, rfl⟩, hafter⟩
      · cases hok
    · rcases hend with ⟨hne, _⟩ | ⟨_, hafter⟩
      · exact absurd rfl hne
      · exact .inr ⟨⟨_, rfl⟩, hafter⟩

/-! ### Replaying again -/

theorem Named.of_prefix (hn : request.Named before.contents)
    (hp : before.contents.bundles <+: later.contents.bundles) : request.Named later.contents := by
  have hids : ∀ id ∈ before.contents.ids, id ∈ later.contents.ids :=
    fun id hid => (hp.filterMap Bundle.id).subset hid
  exact ⟨fun id hid => hids id (hn.oldOutput id hid), fun id hid => hids id (hn.oldInputs id hid),
    fun id hid => hids id (hn.newInputs id hid)⟩

theorem exists_traversed (hn : request.Named before.contents) {replayed : Replayed}
    (h : request.replay.run (Stock.handle supply) before = (.ok replayed, whole)) : ∃ last mid,
      request.traverse.run (Stock.handle supply) before = (.ok (request, last), mid) ∧
      (finish (request, last)).run (Stock.handle supply) mid = (.ok replayed, whole) := by
  obtain ⟨⟨named, last⟩, htraverse, hfinish⟩ := run_eq_finish (congrArg Prod.fst h)
  cases hrun : request.traverse.run (Stock.handle supply) before with
  | mk outcome mid =>
      rw [hrun] at htraverse hfinish
      obtain rfl : outcome = .ok (named, last) := htraverse
      obtain rfl := run_traverse_named hn hrun
      exact ⟨last, mid, rfl, hfinish.symm.trans h⟩

/-- An attempt to replay attempts to traverse first.  Unless that fails, it puts items on worksheets
after that, and no more. -/
theorem exists_attempted {events : List Event} {result : Except ReplayError Replayed}
    (h : request.replay.Leads supply before events result later) : ∃ first outcome attempted,
      request.traverse.Leads supply before first outcome attempted ∧
      later.contents.bundles = attempted.contents.bundles ∧
      later.contents.Extends attempted.contents ∧
      ∀ error, outcome = .error error → later = attempted := by
  rw [replay_eq] at h
  obtain ⟨first, second, outcome, attempted, _, htraverse, h⟩ := h.of_bind
  refine ⟨first, outcome, attempted, htraverse, ?_, h.extends_contents, ?_⟩
  · cases outcome with
    | error error =>
        obtain ⟨_, _, rfl⟩ := h.of_pure
        rfl
    | ok traversed => exact ((finish_ensures traversed).of_leads h).1
  · rintro error rfl
    exact h.of_pure.2.2

/-- The end of a traversal succeeds where the plan is current, if it has done so for the same plan on
worksheets that are still there. -/
theorem run_finish_after (hd : request.dryRun = false) {last last' : Replayer} {mid : Stock}
    {replayed : Replayed}
    (hfinish : (finish (request, last)).run (Stock.handle supply) mid = (.ok replayed, whole))
    (hp : last'.plan = last.plan) (hc : last'.Current after.contents)
    (hw : (mid.contents.worksheet? request.worksheet).isSome = true →
      (after.contents.worksheet? request.worksheet).isSome = true) :
    ∃ again final, (finish (request, last')).run (Stock.handle supply) after = (.ok again, final) ∧
      again.plan = last.plan := by
  have htarget : request.shadow = false → last'.plan.newIds ≠ [] →
      (after.contents.worksheet? request.worksheet).isSome = true := by
    intro hs hne
    rw [hp] at hne
    exact hw ((finish_target hd hs hne).of_run hfinish replayed rfl)
  obtain ⟨placement, hlayout⟩ : ∃ placement,
      ((request.layOut last').run (Stock.handle supply) after).1 = .ok placement :=
    run_layOut hc.created (fun _ hid => hc.latest.mem_ids hid) htarget
  exact ⟨_, _, Prod.ext (run_finish hlayout) rfl, hp⟩

/-- **Replaying after an attempt.**  A replay that succeeds does so after any attempt, if what it
asks about first is answered as before.  It gives the same plan then, and leaves the same bundles. -/
theorem replay_after (hd : request.dryRun = false) (hm : request.memoize = true)
    (hn : request.Named before.contents) {replayed : Replayed}
    (hwhole : request.replay.run (Stock.handle supply) before = (.ok replayed, whole))
    {events : List Event} {result : Except ReplayError Replayed}
    (hattempt : request.replay.Leads supply before events result later)
    (he : request.Echoes supply before later) :
    ∃ again after, request.replay.run (Stock.handle supply) later = (.ok again, after) ∧
      again.plan = replayed.plan ∧ after.contents.bundles = whole.contents.bundles ∧
      ∀ first, result = .ok first → first = replayed ∧ later = whole := by
  obtain ⟨last, mid, htraverse, hfinish⟩ := exists_traversed hn hwhole
  obtain ⟨_, outcome, attempted, hattempted, hbundles, hextends, hfailed⟩ :=
    exists_attempted hattempt
  obtain ⟨last', after, hagain, hlike, hend⟩ :=
    traverse_after hd hm hn htraverse hattempted hbundles hfailed he
  -- the bundles and the worksheets are those of the whole traversal
  have hafter : after.contents.bundles = mid.contents.bundles ∧
      after.contents.Extends mid.contents := by
    rcases hend with ⟨_, rfl⟩ | ⟨_, rfl, rfl⟩
    · exact ⟨rfl, .refl _⟩
    · exact ⟨hbundles, hextends⟩
  have hcurrent : last'.Current after.contents := by
    have hnamed := hn.of_prefix hattempt.extends_contents.bundles
    have hkept : ∀ cache ids, Replayer.Kept supply (request.inIds later.contents) cache
        (.start (request.inIds later.contents)) ids
        fun replayer stock => replayer.Current stock.contents := by
      rw [inIds_of_named hnamed]
      exact fun cache ids => Replayer.Current.kept hd hm cache _ ids
    exact (traverse_ensures request (.start _ _) hkept).of_run hagain request last' rfl
  obtain ⟨again, final, hfinishAgain, hplan⟩ := run_finish_after hd hfinish hlike.plan hcurrent
    hafter.2.isSome_worksheet?_iff.mpr
  have hrun : request.replay.run (Stock.handle supply) later = (.ok again, final) := by
    rw [replay_eq, run_bind, hagain]
    exact hfinishAgain
  have hwholeEnd := (finish_ensures (request, last)).of_run hfinish
  have hagainEnd := (finish_ensures (request, last')).of_run hfinishAgain
  refine ⟨again, final, hrun, ?_, ?_, ?_⟩
  · rw [hplan, hwholeEnd.2 replayed rfl]
  · rw [hagainEnd.1, hafter.1, hwholeEnd.1]
  · rintro first rfl
    have hsucceeded := (replay_orderly request).of_leads hattempt |>.2.2 rfl
    have hsame := (hattempt.run_eq hsucceeded).symm.trans hwhole
    cases hsame
    exact ⟨rfl, rfl⟩

/-! ### Recorded replays -/

theorem run_recorded (request : Request) (supply : IdSupply) {store : Store}
    (hf : store.failures = []) :
    request.replay.run (Stock.handle supply) store.stock =
      ((request.replay.run (Recorded.handle supply []) (.ofStore store)).1,
        (request.replay.run (Recorded.handle supply []) (.ofStore store)).2.stock) := by
  obtain ⟨hresult, hstock, _⟩ := Recorded.run_eq supply request.replay
    (show (Recorded.ofStore store).store.failures = [] from hf)
  exact Prod.ext hresult.symm hstock.symm

theorem operation_ne_of_bundles_eq (request : Request) (supply : IdSupply) {store : Store}
    {replayed : Replayed}
    (hr : (request.replay.run (Recorded.handle supply []) (.ofStore store)).1 = .ok replayed)
    (hb : (request.replay.run (Recorded.handle supply []) (.ofStore store)).2.store.contents.bundles =
      store.contents.bundles) :
    ∀ call ∈ (request.replay.run (Recorded.handle supply []) (.ofStore store)).2.calls,
      call.operation ≠ .createBundle := by
  obtain ⟨events, hleads, hcalls⟩ :=
    Recorded.exists_leads supply [] request.replay (.ofStore store)
  have hnone : failure? (request.replay.run (Recorded.handle supply []) (.ofStore store)).1 =
      none := by
    rw [hr]
    rfl
  have hevents := hleads.operation_ne ((replay_orderly request).of_leads hleads |>.2.2 hnone) hb
  intro call hcall
  rw [hcalls] at hcall
  obtain ⟨event, he, rfl⟩ := List.mem_map.mp hcall
  exact hevents event he

/-- **A replay resumes one that was broken off.**  A request that names an output and takes
equivalent bundles over is replayed on a store, with at most one call made to fail: the one with the
given number, if there is one.  Replayed again without failures, it succeeds, and its plan and the
bundles that it leaves are those of one replay without failures.  If the first replay has ended well,
the second has the same plan and creates no bundle.

All replays draw their ids from one supply, whatever this is, so nothing has to be renamed. -/
theorem replay_resumes (request : Request) (supply : IdSupply) (store : Store)
    (hf : store.failures = []) (hn : request.Named store.contents)
    (ho : request.oldOutput.isSome = true) (hm : request.memoize = true)
    (hd : request.dryRun = false) {replayed : Replayed}
    (hw : (request.replay.run (Recorded.handle supply []) (.ofStore store)).1 = .ok replayed)
    (number : Nat) (error : StoreError) :
    let whole := (request.replay.run (Recorded.handle supply []) (.ofStore store)).2
    let first := request.replay.run (Recorded.handle supply [(number, error)]) (.ofStore store)
    let second := request.replay.run (Recorded.handle supply []) (.ofStore first.2.store)
    ∃ again, second.1 = .ok again ∧ again.plan = replayed.plan ∧
      second.2.store.contents.bundles = whole.store.contents.bundles ∧
      ∀ done, first.1 = .ok done →
        again.plan = done.plan ∧ ∀ call ∈ second.2.calls, call.operation ≠ .createBundle := by
  intro whole first second
  have hwhole := run_recorded request supply hf
  rw [hw] at hwhole
  obtain ⟨_, hattempt, _⟩ :=
    Recorded.exists_leads supply [(number, error)] request.replay (.ofStore store)
  have hechoes : request.Echoes supply store.stock first.2.stock :=
    echoes_of_output hn ho hattempt.extends_contents.bundles
  obtain ⟨again, after, hagain, hplan, hbundles, hdone⟩ :=
    replay_after hd hm hn hwhole hattempt hechoes
  have hfirst : first.2.store.failures = [] := Recorded.run_failures supply number error _ hf
  obtain ⟨hresult, rfl⟩ : Except.ok again = second.1 ∧ after = second.2.stock :=
    Prod.mk.inj (hagain.symm.trans (run_recorded request supply hfirst))
  refine ⟨again, hresult.symm, hplan, hbundles, fun done hfirstDone => ?_⟩
  obtain ⟨rfl, hsame⟩ := hdone done hfirstDone
  have hunchanged : second.2.store.contents.bundles = first.2.store.contents.bundles :=
    hbundles.trans (congrArg (·.contents.bundles) hsame).symm
  exact ⟨hplan, operation_ne_of_bundles_eq request supply hresult.symm hunchanged⟩

end Request

/-- A store in which each bundle uses the one before it. -/
def Store.chain : Store :=
  .ofBundles [.mounting .dataset "raw" none [], .mounting .dataset "fix" none [],
    .mounting .run "prep" (some "prep") ["raw"], .mounting .run "train" (some "train") ["prep"],
    .mounting .run "eval" (some "eval") ["train"]]

namespace Request

/-- A request to replay the chain, or what is above a part of it, on the fixed data.  It takes
equivalent bundles over. -/
def chain (output : Option BundleId) : Request :=
  { diamond output with memoize := true }

/-- The replay of the chain is broken off when its second bundle is to be created; replayed again, it
has the plan that it would have had. -/
theorem chain_resumes : ∃ replayed again,
    let first := (chain (some "eval")).replay.run
      (Recorded.handle Stock.strokes [(10, .transport "lost")]) (.ofStore Store.chain)
    ((chain (some "eval")).replay.run (Recorded.handle Stock.strokes [])
      (.ofStore Store.chain)).1 = .ok replayed ∧
    first.2.store.contents.ids = Store.chain.contents.ids ++ ["|"] ∧
    ((chain (some "eval")).replay.run (Recorded.handle Stock.strokes [])
      (.ofStore first.2.store)).1 = .ok again ∧
    again.plan = replayed.plan := by
  have hok : ((chain (some "eval")).replay.run (Recorded.handle Stock.strokes [])
      (.ofStore Store.chain)).1.isOk = true := by decide +kernel
  have hids : ((chain (some "eval")).replay.run
      (Recorded.handle Stock.strokes [(10, .transport "lost")])
      (.ofStore Store.chain)).2.store.contents.ids = Store.chain.contents.ids ++ ["|"] := by
    decide +kernel
  have hnamed : (chain (some "eval")).Named Store.chain.contents := by
    refine ⟨?_, by decide, by decide⟩
    rintro _ ⟨⟩
    decide
  obtain ⟨replayed, hw⟩ := exists_ok_of_isOk hok
  obtain ⟨again, hagain, hplan, _⟩ := replay_resumes (chain (some "eval")) Stock.strokes
    Store.chain rfl hnamed rfl rfl rfl hw 10 (.transport "lost")
  exact ⟨replayed, again, hw, hids, hagain, hplan⟩

end Request

end Provenance
