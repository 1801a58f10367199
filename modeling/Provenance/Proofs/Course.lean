import Provenance.Proofs.Descendants
import Provenance.Proofs.Walk
import Provenance.Replay.Run

/-!
# The course of a replay

A replay that succeeds resolves the specs of its request, collects a part of the graph, walks it for
its targets, and lays out what it made.  Only the walks create bundles.

* `Request.inIds` is the request with ids in place of specs, `resolved_finds` says that it is what
  the first step gives.
* `Request.Collected` is the part of the graph that is collected.
* `replay_ensures` puts the steps together: an invariant that walks keep holds at the end.
-/

namespace Provenance

open Dialogue

variable {supply : IdSupply} {stock after : Stock} {contents : Contents} {request : Request}

/-! ### Resolving specs -/

/-- The id of the bundle that a spec stands for; a spec that stands for none stays. -/
def Contents.idOf (contents : Contents) (spec : String) : BundleId :=
  (contents.idOf? spec).getD spec

theorem Contents.idOf_of_mem_ids {id : BundleId} (h : id ∈ contents.ids) : contents.idOf id = id := by
  rw [idOf, idOf?_of_mem_ids h]
  rfl

namespace Request

/-- The request with ids in place of everything it names. -/
def inIds (request : Request) (contents : Contents) : Request :=
  { request with
    oldOutput := request.oldOutput.map contents.idOf
    oldInputs := request.oldInputs.map contents.idOf
    newInputs := request.newInputs.map contents.idOf }

/-- Everything that a request names is an id of a stored bundle. -/
structure Named (request : Request) (contents : Contents) : Prop where
  oldOutput : ∀ id, request.oldOutput = some id → id ∈ contents.ids
  oldInputs : ∀ id ∈ request.oldInputs, id ∈ contents.ids
  newInputs : ∀ id ∈ request.newInputs, id ∈ contents.ids

/-- A request that names ids only is the same in ids. -/
theorem inIds_of_named (h : request.Named contents) : request.inIds contents = request := by
  have hmap : ∀ ids : List BundleId, (∀ id ∈ ids, id ∈ contents.ids) →
      ids.map contents.idOf = ids := by
    intro ids hids
    refine (List.map_congr_left fun id hid => ?_).trans (List.map_id ids)
    exact Contents.idOf_of_mem_ids (hids id hid)
  have houtput : request.oldOutput.map contents.idOf = request.oldOutput := by
    cases ho : request.oldOutput with
    | none => rfl
    | some id => rw [Option.map_some, Contents.idOf_of_mem_ids (h.oldOutput id ho)]
  rw [inIds, houtput, hmap _ h.oldInputs, hmap _ h.newInputs]

theorem resolveSpec_finds (spec : String) :
    (resolveSpec spec).Finds supply stock fun id =>
      id = stock.contents.idOf spec ∧ id ∈ stock.contents.ids := by
  have hcall : (call (.fetchBundles [spec] none)).Finds supply stock fun found =>
      ∀ id, found.head?.bind Bundle.id = some id →
        id = stock.contents.idOf spec ∧ id ∈ stock.contents.ids := by
    refine finds_call fun found after hs => ?_
    obtain ⟨hf, hafter⟩ := hs.fetchBundles
    obtain ⟨resolved, hr, rfl⟩ := Contents.exists_of_fetchBundles hf
    refine ⟨?_, hafter⟩
    intro id hid
    have hhead : resolved.head?.bind Bundle.id = some id := by
      simp only [Option.getD_none, Contents.descendants, List.append_nil, List.head?_map] at hid
      cases resolved with
      | nil => cases hid
      | cons bundle rest => exact hid
    obtain ⟨bundle, hb, hown⟩ := Option.bind_eq_some_iff.mp hhead
    have hmem : id ∈ resolved.filterMap Bundle.id :=
      List.mem_filterMap.mpr ⟨bundle, List.mem_of_head? hb, hown⟩
    obtain ⟨other, ho, hspec⟩ :=
      List.mem_filterMap.mp (((Contents.resolveAll_ok hr).2 id).mp hmem).2
    obtain rfl := List.mem_singleton.mp ho
    refine ⟨?_, Contents.mem_ids_of_idOf? hspec⟩
    rw [Contents.idOf, hspec, Option.getD_some]
  refine hcall.bind (fun _ => finds_error) fun found hfound => ?_
  cases hid : found.head?.bind Bundle.id with
  | none =>
      simp only [hid]
      exact finds_error
  | some id =>
      simp only [hid]
      exact finds_ok (hfound id hid)

theorem resolveSpecs_finds (specs : List String) :
    (resolveSpecs specs).Finds supply stock fun ids => ids = specs.map stock.contents.idOf ∧
      ∀ id ∈ ids, id ∈ stock.contents.ids := by
  induction specs with
  | nil => exact finds_ok ⟨rfl, nofun⟩
  | cons spec specs ih =>
      rw [resolveSpecs]
      refine (resolveSpec_finds spec).bind (fun _ => finds_error) fun id hid => ?_
      refine ih.bind (fun _ => finds_error) fun rest hrest => finds_ok ?_
      refine ⟨by rw [List.map_cons, ← hid.1, ← hrest.1], ?_⟩
      intro other ho
      rcases List.mem_cons.mp ho with rfl | ho
      · exact hid.2
      · exact hrest.2 other ho

theorem resolveOptional_finds (spec : Option String) :
    (resolveOptional spec).Finds supply stock fun found =>
      found = spec.map stock.contents.idOf ∧ ∀ id, found = some id → id ∈ stock.contents.ids := by
  cases spec with
  | none => exact finds_ok ⟨rfl, nofun⟩
  | some spec =>
      refine (resolveSpec_finds spec).bind (fun _ => finds_error) fun id hid => finds_ok ?_
      refine ⟨by rw [Option.map_some, ← hid.1], ?_⟩
      intro other ho
      cases ho
      exact hid.2

/-- Resolving a request puts ids in place of everything it names, or it fails. -/
theorem resolved_finds (request : Request) :
    request.resolved.Finds supply stock fun found =>
      found = request.inIds stock.contents ∧ found.Named stock.contents := by
  unfold resolved
  refine (resolveOptional_finds request.oldOutput).bind (fun _ => finds_error) fun output ho => ?_
  refine (resolveSpecs_finds request.oldInputs).bind (fun _ => finds_error) fun old hold => ?_
  refine (resolveSpecs_finds request.newInputs).bind (fun _ => finds_error) fun new hnew => ?_
  refine finds_ok ⟨?_, ho.2, hold.2, hnew.2⟩
  rw [ho.1, hold.1, hnew.1]
  rfl

/-! ### Collecting the graph -/

/-- Where the part of the graph that is collected begins: at the output, or at what is at most
`depth` levels below the old inputs. -/
def Seed (request : Request) (contents : Contents) (id : BundleId) : Prop :=
  match request.oldOutput with
  | some output => id = output
  | none => ∃ level ≤ request.depth, contents.Level request.oldInputs level id

/-- The part of the graph that a replay collects: what is less than `depth` edges above the seeds is
fetched, what is `depth` edges above is named too. -/
structure Collected (request : Request) (contents : Contents) (cache : Cache)
    (closure : List BundleId) : Prop where
  mirrors : cache.Mirrors contents
  contains_iff : ∀ id, cache.contains id = true ↔ ∃ seed, request.Seed contents seed ∧
    contents.Within [seed] (request.depth - 1) id
  closure_iff : ∀ id, id ∈ closure ↔ ∃ seed, request.Seed contents seed ∧
    contents.Within [seed] request.depth id

theorem filterMap_idOf? {ids : List BundleId} (h : ∀ id ∈ ids, id ∈ contents.ids) :
    ids.filterMap contents.idOf? = ids := by
  induction ids with
  | nil => rfl
  | cons id ids ih =>
      have hid := Contents.idOf?_of_mem_ids (h id List.mem_cons_self)
      rw [List.filterMap_cons, hid, ih fun other ho => h other (List.mem_cons_of_mem _ ho)]

theorem fetchSeeds_stored (request : Request) :
    request.fetchSeeds.Finds supply stock fun found =>
      ∀ bundle ∈ found, ∃ stored ∈ stock.contents.bundles, bundle = stored.explained := by
  have hcall : ∀ specs depth, (call (.fetchBundles specs depth)).Finds supply stock fun found =>
      ∀ bundle ∈ found, ∃ stored ∈ stock.contents.bundles, bundle = stored.explained := by
    intro specs depth
    refine finds_call fun found after hs => ?_
    exact ⟨Contents.mem_of_fetchBundles hs.fetchBundles.1, hs.fetchBundles.2⟩
  unfold fetchSeeds
  split
  · exact hcall _ _
  · exact hcall _ _

/-- Whatever a request is about, what is collected for it is what the store has. -/
theorem collect_mirrors (request : Request) :
    request.collect.Finds supply stock fun found => found.1.Mirrors stock.contents := by
  unfold collect
  refine (fetchSeeds_stored request).bind (fun _ => finds_error) fun found hfound => ?_
  refine (Cache.rounds_mirrors (Cache.mirrors_ofBundles hfound) _ [] _ _).bind ?_
  rintro ⟨outcome, cache⟩ after ⟨rfl, hm⟩
  cases outcome with
  | error error => exact finds_error
  | ok closure => exact finds_ok hm

theorem fetchSeeds_finds (hi : stock.contents.Identified) (hn : request.Named stock.contents) :
    request.fetchSeeds.Finds supply stock fun found =>
      (∀ bundle ∈ found, ∃ stored ∈ stock.contents.bundles, bundle = stored.explained) ∧
        ∀ id, id ∈ Cache.idsOf found ↔ request.Seed stock.contents id := by
  unfold fetchSeeds
  cases ho : request.oldOutput with
  | some output =>
      refine finds_call fun found after hs => ?_
      obtain ⟨hf, hafter⟩ := hs.fetchBundles
      refine ⟨⟨Contents.mem_of_fetchBundles hf, ?_⟩, hafter⟩
      intro id
      have hids : [output].filterMap stock.contents.idOf? = [output] :=
        filterMap_idOf? fun other hother =>
          List.mem_singleton.mp hother ▸ hn.oldOutput output ho
      rw [Contents.mem_idsOf_of_fetchBundles hi hf, hids, Seed, ho]
      constructor
      · rintro ⟨level, hle, hl⟩
        obtain rfl : level = 0 := by simpa using hle
        exact List.mem_singleton.mp (Contents.Level.zero_iff.mp hl)
      · rintro rfl
        exact ⟨0, Nat.zero_le _, Contents.Level.zero_iff.mpr List.mem_cons_self⟩
  | none =>
      refine finds_call fun found after hs => ?_
      obtain ⟨hf, hafter⟩ := hs.fetchBundles
      refine ⟨⟨Contents.mem_of_fetchBundles hf, ?_⟩, hafter⟩
      intro id
      rw [Contents.mem_idsOf_of_fetchBundles hi hf, filterMap_idOf? hn.oldInputs, Seed, ho]
      rfl

theorem collect_finds (hi : stock.contents.Identified) (hn : request.Named stock.contents) :
    request.collect.Finds supply stock fun found =>
      request.Collected stock.contents found.1 found.2 := by
  unfold collect
  refine (fetchSeeds_finds hi hn).bind (fun _ => finds_error) fun found hfound => ?_
  obtain ⟨hstored, hseeds⟩ := hfound
  refine (Cache.collectAncestors_ensures hi (Cache.mirrors_ofBundles hstored)
    (fun id => Cache.contains_ofBundles) request.depth).bind ?_
  intro result after hr
  obtain ⟨rfl, h⟩ := hr
  obtain ⟨outcome, cache⟩ := result
  cases outcome with
  | error error => exact finds_error
  | ok closure =>
      obtain ⟨hm, hcontains, hclosure⟩ := h closure rfl
      have hwithin : ∀ distance id,
          after.contents.Within (Cache.idsOf found) distance id ↔
            ∃ seed, request.Seed after.contents seed ∧
              after.contents.Within [seed] distance id := by
        intro distance id
        constructor
        · rintro ⟨seed, hs, hc⟩
          exact ⟨seed, (hseeds seed).mp hs, seed, List.mem_cons_self, hc⟩
        · rintro ⟨seed, hs, other, ho, hc⟩
          obtain rfl := List.mem_singleton.mp ho
          exact ⟨other, (hseeds other).mpr hs, hc⟩
      refine finds_ok ⟨hm, ?_, ?_⟩
      · intro id
        rw [hcontains, hwithin]
      · intro id
        rw [hclosure, hwithin]

theorem mem_mentioned_of_mem_targets (hn : request.Named contents) {cache : Cache}
    {closure : List BundleId} (hc : request.Collected contents cache closure) :
    ∀ target ∈ request.targets closure, target ∈ contents.mentioned := by
  have hseed : ∀ seed, request.Seed contents seed → seed ∈ contents.ids := by
    intro seed hs
    unfold Seed at hs
    split at hs
    · rename_i output ho
      exact hs ▸ hn.oldOutput output ho
    · obtain ⟨level, _, ⟨top, htop, hclimb⟩, _⟩ := hs
      cases hclimb with
      | here => exact hn.oldInputs _ htop
      | up he _ =>
          obtain ⟨bundle, hb, hid, _⟩ := he
          exact Contents.mem_ids.mpr ⟨bundle, hb, hid⟩
  intro target ht
  unfold targets at ht
  split at ht
  · rename_i output ho
    exact Contents.mentioned_of_mem_ids (List.mem_singleton.mp ht ▸ hn.oldOutput output ho)
  · obtain ⟨seed, hs, other, hother, n, _, hclimb⟩ := (hc.closure_iff target).mp ht
    obtain rfl := List.mem_singleton.mp hother
    cases n with
    | zero =>
        cases hclimb
        exact Contents.mentioned_of_mem_ids (hseed _ hs)
    | succ n =>
        obtain ⟨child, _, he⟩ := hclimb.exists_of_succ
        exact Contents.mentioned_of_edge he

end Request

/-- Walks for what occurs in what is stored come to such ids only. -/
theorem Replayer.mem_mentioned_of_visits {replayer : Replayer} {cache : Cache}
    {targets : List BundleId} {current : BundleId} (hm : cache.Mirrors contents)
    (ht : ∀ target ∈ targets, target ∈ contents.mentioned)
    (hv : replayer.Visits cache targets current) : current ∈ contents.mentioned := by
  obtain ⟨target, htarget, hpath⟩ := hv
  rcases Relation.ReflTransGen.cases_tail hpath with rfl | ⟨child, _, _, he⟩
  · exact ht _ htarget
  · exact Contents.mentioned_of_edge (hm.edge he)

/-! ### Laying out -/

namespace Placement

theorem putItems_ensures (target : WorksheetId) (items : List WorksheetItem) :
    (putItems target items).Ensures supply stock fun _ after =>
      after.contents.bundles = stock.contents.bundles := by
  induction items generalizing stock with
  | nil => rfl
  | cons item items ih =>
      rw [putItems, ensures_bind, ensures_call]
      intro outcome after hs
      cases outcome with
      | error error => exact congrArg (·.contents.bundles) hs
      | ok made =>
          refine ih.mono ?_
          intro _ last hlast
          rw [hlast, hs.createWorksheetItem.1]

theorem hosts_finds (anchor : Option BundleId) :
    (hosts anchor).Finds supply stock
      (· = anchor.elim [] stock.contents.fetchWorksheetsByBundle) := by
  cases anchor with
  | none => exact finds_ok rfl
  | some anchor =>
      exact finds_call fun _ _ hs =>
        ⟨hs.fetchWorksheetsByBundle.1.symm, hs.fetchWorksheetsByBundle.2⟩

theorem hostLayout_finds (substitutions : Substitutions) (created : List BundleId)
    (host : Option WorksheetId) :
    (hostLayout substitutions created host).Finds supply stock fun found =>
      match host with
      | none => found = []
      | some id => ∃ worksheet, stock.contents.fetchWorksheet id = .ok worksheet ∧
          found = layout substitutions created [] worksheet.items := by
  cases host with
  | none => exact finds_ok rfl
  | some host =>
      have hcall : (call (.fetchWorksheet host)).Finds supply stock fun worksheet =>
          stock.contents.fetchWorksheet host = .ok worksheet :=
        finds_call fun _ _ hs => hs.fetchWorksheet
      exact hcall.bind (fun _ => finds_error) fun worksheet hw => finds_ok ⟨worksheet, hw, rfl⟩

theorem place_ensures (plan : Plan) (substitutions : Substitutions) (created : List BundleId)
    (target : WorksheetId) (anchor : Option BundleId) (skipPrelude : Bool) :
    (place plan substitutions created target anchor skipPrelude).Ensures supply stock
      fun _ after => after.contents.bundles = stock.contents.bundles := by
  unfold place
  refine Ensures.bind (hosts_finds anchor) ?_
  intro outcome after hhosts
  obtain ⟨rfl, _⟩ := hhosts
  cases outcome with
  | error error => rfl
  | ok hosts =>
      refine Ensures.bind (hostLayout_finds substitutions created _) ?_
      intro outcome after hlayout
      obtain ⟨rfl, _⟩ := hlayout
      cases outcome with
      | error error => rfl
      | ok layout =>
          refine (putItems_ensures target _).bind ?_
          intro outcome after hb
          cases outcome with
          | error error => exact hb
          | ok _ => exact hb

end Placement

namespace Request

/-- Laying out changes no bundle. -/
theorem layOut_ensures (request : Request) (replayer : Replayer) :
    (request.layOut replayer).Ensures supply stock fun _ after =>
      after.contents.bundles = stock.contents.bundles := by
  unfold layOut
  split
  · rfl
  · exact (Placement.place_ensures _ _ _ _ _ _).bind fun _ _ hb => hb

/-! ### The whole replay -/

theorem length_newInputs (h : request.validate = .ok ()) :
    request.newInputs.length = request.oldInputs.length := by
  unfold validate at h
  split at h
  · cases h
  · rename_i hlength
    omega

theorem map_fst_pairs (contents : Contents) (h : request.validate = .ok ()) :
    (request.inIds contents).pairs.map Prod.fst = (request.inIds contents).oldInputs := by
  refine List.map_fst_zip ?_
  simp only [inIds, List.length_map, length_newInputs h]
  exact Nat.le_refl _

/-- What a replay that succeeds has gone through: `request` names ids, and the walks ended in
`replayer`. -/
structure Course (request : Request) (contents : Contents) (cache : Cache)
    (closure : List BundleId) (replayer : Replayer) (replayed : Replayed) : Prop where
  named : request.Named contents
  paired : request.pairs.map Prod.fst = request.oldInputs
  collected : request.Collected contents cache closure
  mapped : ∀ id ∈ request.targets closure, replayer.substitutions.contains id = true
  plan : replayed.plan = replayer.plan

/-- **The course of a replay**: if its walks keep an invariant of the collected graph, it holds when
they have ended, and no bundle changes after that. -/
theorem replay_ensures (request : Request) (inv : Cache → List BundleId → Replayer → Stock → Prop)
    (hi : stock.contents.Identified) {named : Request}
    (hnamed : named = request.inIds stock.contents)
    (hinv : ∀ cache closure, named.Named stock.contents →
      named.pairs.map Prod.fst = named.oldInputs →
      named.Collected stock.contents cache closure → inv cache closure (.start named) stock ∧
        Replayer.Kept supply named cache (.start named) (named.targets closure)
          (inv cache closure)) :
    request.replay.Ensures supply stock fun result after => ∀ replayed, result = .ok replayed →
      ∃ cache closure replayer mid, named.Course stock.contents cache closure replayer replayed ∧
        inv cache closure replayer mid ∧ after.contents.bundles = mid.contents.bundles := by
  subst hnamed
  unfold replay
  split
  · exact nofun
  · rename_i hvalid
    refine Ensures.bind (resolved_finds request) ?_
    intro outcome after hr
    obtain ⟨rfl, h⟩ := hr
    cases outcome with
    | error error => exact nofun
    | ok named =>
        obtain ⟨rfl, hn⟩ := h named rfl
        have hp := map_fst_pairs after.contents hvalid
        unfold replayResolved
        refine Ensures.bind (collect_finds hi hn) ?_
        intro outcome mid hr
        obtain ⟨rfl, hcollect⟩ := hr
        cases outcome with
        | error error => exact nofun
        | ok collected =>
            obtain ⟨cache, closure⟩ := collected
            have hc : (request.inIds mid.contents).Collected mid.contents cache closure :=
              hcollect _ rfl
            obtain ⟨hstart, hkept⟩ := hinv cache closure hn hp hc
            refine (Replayer.substituteAll_ensures (fun _ hid => hid) hkept hstart).bind ?_
            intro result last hr
            obtain ⟨outcome, replayer⟩ := result
            obtain ⟨hend, _, hmapped⟩ := hr
            cases outcome with
            | error error => exact nofun
            | ok _ =>
                refine (layOut_ensures _ replayer).bind ?_
                intro outcome final hb
                cases outcome with
                | error error => exact nofun
                | ok placement =>
                    intro replayed hreplayed
                    cases hreplayed
                    exact ⟨cache, closure, replayer, last, ⟨hn, hp, hc, hmapped rfl, rfl⟩, hend, hb⟩

/-- A request to replay the diamond, or what is above a part of it, on the fixed data. -/
def diamond (output : Option BundleId) : Request :=
  { ofDefaults "w" .standard with
    oldInputs := ["raw"]
    newInputs := ["fix"]
    oldOutput := output }

theorem exists_ok_of_isOk {α : Type} {outcome : Except ReplayError α} (h : outcome.isOk = true) :
    ∃ result, outcome = .ok result := by
  cases outcome with
  | error error => cases h
  | ok result => exact ⟨result, rfl⟩

theorem exists_ok_of_map {α β : Type} {outcome : Except ReplayError α} {view : α → β} {seen : β}
    (h : outcome.toOption.map view = some seen) : ∃ result, outcome = .ok result ∧ view result = seen := by
  cases outcome with
  | error error => cases h
  | ok result => exact ⟨result, rfl, Option.some.inj h⟩

theorem exists_replayed_diamond {output : Option BundleId}
    (h : output = none ∨ output = some "eval") : ∃ replayed,
      ((diamond output).replay.run (Store.handle Stock.strokes) Store.diamond).1 =
        .ok replayed := by
  apply exists_ok_of_isOk
  rcases h with rfl | rfl <;> decide

end Request

end Provenance
