import Provenance.Proofs.Conduct
import Provenance.Proofs.Course

/-!
# The phases of a replay

A replay finds out what its request is about, substitutes, and finishes by laying out what it made.
The first two phases are its traversal.

* `Request.traverse_found`: what the walks keep holds however the traversal ends, unless nothing was
  changed at all; `Request.traverse_ensures` says so of one that succeeds.
* `Request.finish_ensures`: finishing changes no bundles, so `Request.replay_leaves` says the same of
  a whole replay.
* `Request.of_leads_traverse` takes the events of a traversal apart, and `Request.run_traverse` puts
  a run of one together.
-/

namespace Provenance

open Dialogue

namespace Request

variable {supply : IdSupply} {stock before after : Stock} {request named : Request}

/-! ### What traversals and their ends ensure -/

/-- However a traversal ends, what the walks keep of the graph that was found holds then, unless it
fails before the first of them and leaves the stock alone. -/
theorem traverse_found (request : Request) (inv : Cache → List BundleId → Replayer → Stock → Prop)
    {found : Cache × List BundleId → Prop} (hnamed : named = request.inIds stock.contents)
    (hcollect : named.Named stock.contents → named.collect.Finds supply stock found)
    (hinv : ∀ cache closure, named.Named stock.contents →
      named.pairs.map Prod.fst = named.oldInputs → found (cache, closure) →
      inv cache closure (.start named) stock ∧
        Replayer.Kept supply named cache (.start named) (named.targets closure)
          (inv cache closure)) :
    request.traverse.Ensures supply stock fun result after =>
      (after = stock ∧ ∃ error, result = .error error) ∨ ∃ cache closure replayer,
        found (cache, closure) ∧ inv cache closure replayer after ∧
        ∀ named last, result = .ok (named, last) → last = replayer := by
  subst hnamed
  unfold traverse
  split
  · exact .inl ⟨rfl, _, rfl⟩
  · rename_i hvalid
    refine Ensures.bind (resolved_finds request) ?_
    rintro outcome after ⟨rfl, h⟩
    cases outcome with
    | error error => exact .inl ⟨rfl, _, rfl⟩
    | ok named =>
        obtain ⟨rfl, hnamed⟩ := h named rfl
        refine Ensures.bind (hcollect hnamed) ?_
        rintro outcome mid ⟨rfl, hfound⟩
        cases outcome with
        | error error => exact .inl ⟨rfl, _, rfl⟩
        | ok collected =>
            obtain ⟨cache, closure⟩ := collected
            obtain ⟨hstart, hkept⟩ :=
              hinv cache closure hnamed (map_fst_pairs _ hvalid) (hfound _ rfl)
            refine (Replayer.substituteAll_ensures (fun _ hid => hid) hkept hstart).bind ?_
            rintro ⟨outcome, replayer⟩ last ⟨hend, _⟩
            cases outcome with
            | error error => exact .inr ⟨cache, closure, replayer, hfound _ rfl, hend, nofun⟩
            | ok _ =>
                refine .inr ⟨cache, closure, replayer, hfound _ rfl, hend, ?_⟩
                rintro _ _ ⟨⟩
                rfl

/-- What the walks keep holds when a traversal has ended.  They walk a graph that the store has, and
only if everything that the request names is stored. -/
theorem traverse_ensures_of_named (request : Request) {inv : Replayer → Stock → Prop}
    (hstart : (request.inIds stock.contents).Named stock.contents →
      inv (.start (request.inIds stock.contents)) stock)
    (hkept : ∀ cache ids, cache.Mirrors stock.contents →
      Replayer.Kept supply (request.inIds stock.contents) cache
        (.start (request.inIds stock.contents)) ids inv) :
    request.traverse.Ensures supply stock fun result after => ∀ named replayer,
      result = .ok (named, replayer) → inv replayer after := by
  refine (traverse_found request (fun _ _ => inv) rfl (fun _ => collect_mirrors _)
    fun cache _ hn _ hm => ⟨hstart hn, hkept cache _ hm⟩).mono ?_
  rintro result after (⟨_, error, rfl⟩ | ⟨_, _, last, _, hinv, hlast⟩) named replayer hresult
  · cases hresult
  · rw [hlast named replayer hresult]
    exact hinv

theorem traverse_ensures (request : Request) {inv : Replayer → Stock → Prop}
    (hstart : inv (.start (request.inIds stock.contents)) stock)
    (hkept : ∀ cache ids, Replayer.Kept supply (request.inIds stock.contents) cache
      (.start (request.inIds stock.contents)) ids inv) :
    request.traverse.Ensures supply stock fun result after => ∀ named replayer,
      result = .ok (named, replayer) → inv replayer after :=
  traverse_ensures_of_named request (fun _ => hstart) fun cache ids _ => hkept cache ids

theorem finish_ensures (traversed : Request × Replayer) :
    (finish traversed).Ensures supply stock fun result after =>
      after.contents.bundles = stock.contents.bundles ∧
        ∀ replayed, result = .ok replayed → replayed.plan = traversed.2.plan := by
  unfold finish
  refine (layOut_ensures traversed.1 traversed.2).bind ?_
  intro outcome after hb
  cases outcome with
  | error error => exact ⟨hb, nofun⟩
  | ok placement =>
      refine ⟨hb, ?_⟩
      rintro _ ⟨⟩
      rfl

theorem run_eq_finish {σ : Type} {handler : Handler σ} {state : σ} {replayed : Replayed}
    (h : (request.replay.run handler state).1 = .ok replayed) : ∃ traversed,
      (request.traverse.run handler state).1 = .ok traversed ∧
        request.replay.run handler state =
          (finish traversed).run handler (request.traverse.run handler state).2 := by
  rw [replay_eq, run_bind] at h ⊢
  cases ht : (request.traverse.run handler state).1 with
  | error error =>
      rw [ht] at h
      cases h
  | ok traversed => exact ⟨traversed, rfl, rfl⟩

theorem of_leads_replay {events : List Event} {replayed : Replayed}
    (h : request.replay.Leads supply before events (.ok replayed) after) :
    ∃ first second named replayer mid, events = first ++ second ∧
      request.traverse.Leads supply before first (.ok (named, replayer)) mid ∧
      (finish (named, replayer)).Leads supply mid second (.ok replayed) after := by
  rw [replay_eq] at h
  obtain ⟨first, second, outcome, mid, rfl, htraverse, h⟩ := h.of_bind
  cases outcome with
  | error error =>
      obtain ⟨_, hresult, _⟩ := h.of_pure
      cases hresult
  | ok traversed => exact ⟨first, second, traversed.1, traversed.2, mid, rfl, htraverse, h⟩

/-- However a replay ends, its bundles are those of the stock at the end of its walks, or those that
there were to begin with. -/
theorem replay_leaves (request : Request) (inv : Cache → List BundleId → Replayer → Stock → Prop)
    (hi : stock.contents.Identified) (hnamed : named = request.inIds stock.contents)
    (hinv : ∀ cache closure, named.Named stock.contents →
      named.pairs.map Prod.fst = named.oldInputs →
      named.Collected stock.contents cache closure → inv cache closure (.start named) stock ∧
        Replayer.Kept supply named cache (.start named) (named.targets closure)
          (inv cache closure)) :
    request.replay.Ensures supply stock fun _ after => ∃ mid : Stock,
      (mid = stock ∨ ∃ cache closure replayer, named.Collected stock.contents cache closure ∧
        inv cache closure replayer mid) ∧
        after.contents.bundles = mid.contents.bundles := by
  rw [replay_eq]
  refine (traverse_found request inv hnamed (collect_finds hi) hinv).bind ?_
  intro outcome mid h
  have hmid : mid = stock ∨ ∃ cache closure replayer,
      named.Collected stock.contents cache closure ∧ inv cache closure replayer mid :=
    h.imp And.left fun ⟨cache, closure, replayer, hfound, hend, _⟩ =>
      ⟨cache, closure, replayer, hfound, hend⟩
  cases outcome with
  | error error => exact ⟨mid, hmid, rfl⟩
  | ok traversed => exact (finish_ensures traversed).mono fun _ _ h => ⟨mid, hmid, h.1⟩

theorem finish_eq_pure {replayer : Replayer} (h : request.dryRun = true ∨ request.shadow = true) :
    finish (request, replayer) = pure (.ok ⟨replayer.plan, none⟩) := by
  simp only [finish, layOut, if_pos h]
  rfl

/-! ### The parts of a traversal -/

/-- What a traversal gives once it is known what the request is about. -/
def traversed (named : Request) (outcome : Except ReplayError Unit × Replayer) :
    Except ReplayError (Request × Replayer) :=
  match outcome with
  | (.error error, _) => .error error
  | (.ok _, replayer) => .ok (named, replayer)

/-- A traversal either fails before anything is substituted, or it finds out what the request is
about and then substitutes. -/
theorem of_leads_traverse {events : List Event} {result : Except ReplayError (Request × Replayer)}
    (h : request.traverse.Leads supply before events result after) :
    ((∃ error, result = .error error) ∧ after = before) ∨
      ∃ first second third named cache closure outcome, request.validate = .ok () ∧
        named = request.inIds before.contents ∧
        request.resolved.Leads supply before first (.ok named) before ∧
        named.collect.Leads supply before second (.ok (cache, closure)) before ∧
        ((Replayer.start named).substituteAll named cache (named.targets closure)).Leads
          supply before third outcome after ∧
        events = first ++ (second ++ third) ∧ result = traversed named outcome := by
  unfold traverse at h
  split at h
  · rename_i error hvalid
    obtain ⟨_, rfl, rfl⟩ := h.of_pure
    exact .inl ⟨⟨error, rfl⟩, rfl⟩
  · rename_i hvalid
    obtain ⟨first, rest, outcome, mid, rfl, hresolved, h⟩ := h.of_bind
    obtain ⟨rfl, hfound⟩ := Ensures.of_leads (resolved_finds request) hresolved
    cases outcome with
    | error error =>
        obtain ⟨_, rfl, rfl⟩ := h.of_pure
        exact .inl ⟨⟨error, rfl⟩, rfl⟩
    | ok named =>
        have hnamed := (hfound named rfl).1
        obtain ⟨second, rest, outcome, mid', rfl, hcollect, h⟩ := h.of_bind
        obtain ⟨rfl, _⟩ := ((collect_orderly named).leaves fun _ h => h.reads).of_leads hcollect
        cases outcome with
        | error error =>
            obtain ⟨_, rfl, rfl⟩ := h.of_pure
            exact .inl ⟨⟨_, rfl⟩, rfl⟩
        | ok collected =>
            obtain ⟨cache, closure⟩ := collected
            obtain ⟨third, rest, outcome, last, rfl, hsubstitute, h⟩ := h.of_bind
            obtain ⟨outcome, replayer⟩ := outcome
            refine .inr ⟨first, second, third, named, cache, closure, (outcome, replayer), hvalid,
              hnamed, hresolved, hcollect, ?_⟩
            cases outcome with
            | error error =>
                obtain ⟨rfl, rfl, rfl⟩ := h.of_pure
                exact ⟨hsubstitute, by rw [List.append_nil], rfl⟩
            | ok _ =>
                obtain ⟨rfl, rfl, rfl⟩ := h.of_pure
                exact ⟨hsubstitute, by rw [List.append_nil], rfl⟩

theorem of_leads_traverse_ok {events : List Event} {replayer : Replayer}
    (h : request.traverse.Leads supply before events (.ok (named, replayer)) after) :
    ∃ first second third cache closure, request.validate = .ok () ∧
      named = request.inIds before.contents ∧
      request.resolved.Leads supply before first (.ok named) before ∧
      named.collect.Leads supply before second (.ok (cache, closure)) before ∧
      ((Replayer.start named).substituteAll named cache (named.targets closure)).Leads
        supply before third (.ok (), replayer) after ∧
      events = first ++ (second ++ third) := by
  rcases of_leads_traverse h with ⟨⟨_, herror⟩, _⟩ | ⟨first, second, third, _, cache, closure, outcome,
    hvalid, hnamed, hresolved, hcollect, hsubstitute, hevents, hresult⟩
  · cases herror
  · obtain ⟨_ | _, _⟩ := outcome <;> cases hresult
    exact ⟨first, second, third, cache, closure, hvalid, hnamed, hresolved, hcollect, hsubstitute,
      hevents⟩

theorem run_traverse {σ : Type} {handler : Handler σ} {state second third last : σ} {cache : Cache}
    {closure : List BundleId} {outcome : Except ReplayError Unit × Replayer}
    (hv : request.validate = .ok ())
    (hr : request.resolved.run handler state = (.ok named, second))
    (hc : named.collect.run handler second = (.ok (cache, closure), third))
    (hs : ((Replayer.start named).substituteAll named cache (named.targets closure)).run handler
      third = (outcome, last)) :
    request.traverse.run handler state = (traversed named outcome, last) := by
  obtain ⟨_ | _, replayer⟩ := outcome <;> simp [traverse, traversed, hv, run_bind, hr, hc, hs]

/-- A request, and what is found out about it before anything is substituted. -/
structure Surveyed (request : Request) (supply : IdSupply) (stock : Stock) (named : Request)
    (cache : Cache) (closure : List BundleId) : Prop where
  valid : request.validate = .ok ()
  resolved : request.resolved.run (Stock.handle supply) stock = (.ok named, stock)
  collected : named.collect.run (Stock.handle supply) stock = (.ok (cache, closure), stock)

namespace Surveyed

variable {cache : Cache} {closure : List BundleId} {replayer : Replayer}

theorem mirrors (h : request.Surveyed supply stock named cache closure) :
    cache.Mirrors stock.contents :=
  (Ensures.of_run (collect_mirrors named) h.collected).2 (cache, closure) rfl

theorem named_eq (h : request.Surveyed supply stock named cache closure) :
    named = request.inIds stock.contents :=
  ((Ensures.of_run (resolved_finds request) h.resolved).2 named rfl).1

theorem of_run_traverse
    (h : request.traverse.run (Stock.handle supply) stock = (.ok (named, replayer), after)) :
    ∃ cache closure, request.Surveyed supply stock named cache closure ∧
      ((Replayer.start named).substituteAll named cache (named.targets closure)).run
        (Stock.handle supply) stock = ((.ok (), replayer), after) := by
  obtain ⟨_, hleads⟩ := exists_leads_of_run h
  obtain ⟨_, _, _, cache, closure, hvalid, _, hresolved, hcollect, hsubstitute, _⟩ :=
    of_leads_traverse_ok hleads
  refine ⟨cache, closure, ⟨hvalid, ?_, ?_⟩, ?_⟩
  · exact hresolved.run_eq ((resolved_orderly request).of_leads hresolved |>.2.2 rfl)
  · exact hcollect.run_eq ((collect_orderly named).of_leads hcollect |>.2.2 rfl)
  · exact hsubstitute.run_eq
      ((Replayer.substituteAll_orderly named cache _ _).of_leads hsubstitute |>.2.2 rfl)

end Surveyed

theorem run_replay {σ : Type} {handler : Handler σ} {state mid : σ} {traversed : Request × Replayer}
    (h : request.traverse.run handler state = (.ok traversed, mid)) :
    request.replay.run handler state = (finish traversed).run handler mid := by
  rw [replay_eq, run_bind, h]

theorem run_replay_error {σ : Type} {handler : Handler σ} {state mid : σ} {error : ReplayError}
    (h : request.traverse.run handler state = (.error error, mid)) :
    request.replay.run handler state = (.error error, mid) := by
  rw [replay_eq, run_bind, h]
  rfl

end Request

end Provenance
