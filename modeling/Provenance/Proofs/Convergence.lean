import Mathlib
import Provenance.Proofs.Apartness
import Provenance.Proofs.Reprise

/-!
# Replaying everything again

A request without an output replays what is below its old inputs, down to some level.  What it creates
becomes part of the graph, and is replayed by the same request, if it is itself that near below an old
input.  `Request.replay_converges` says what that comes to.

* If no new input is near below an old one, and no old one below a new one, replaying again at once
  creates nothing.
* Whatever the request, replaying again plans the same for the bundles that were there before, and
  creates bundles only for those that were created.  Deep bundles are an exception.
* No bundle is ever created that is equivalent to a stored one.

`Request.derived_grows_again` and `Request.twins_grow_again` are requests where the second replay goes
on, `Request.deep_replayed_anew` is one where it comes to a deep bundle.
-/

namespace Provenance

open Dialogue

namespace Request

variable {request : Request} {supply : IdSupply} {store : Store}

theorem replay_again_of_far (hf : store.failures = []) (hn : request.Named store.contents)
    (hm : request.memoize = true) (hd : request.dryRun = false) {replayed : Replayed}
    (hr : (request.replay.run (Recorded.handle supply []) (.ofStore store)).1 = .ok replayed)
    (hfar : (request.replay.run (Recorded.handle supply []) (.ofStore store)).2.store.contents.Far
      store.contents request.oldInputs request.depth) :
    let first := (request.replay.run (Recorded.handle supply []) (.ofStore store)).2.store
    let second := request.replay.run (Recorded.handle supply []) (.ofStore first)
    ∃ again, second.1 = .ok again ∧ again.plan = replayed.plan ∧
      second.2.store.contents.bundles = first.contents.bundles ∧
      ∀ call ∈ second.2.calls, call.operation ≠ .createBundle := by
  intro first second
  have hfirst := run_recorded request supply hf
  rw [hr] at hfirst
  obtain ⟨_, hleads⟩ := exists_leads_of_run hfirst
  have hp := hleads.extends_contents.bundles
  have hechoes : request.Echoes supply store.stock first.stock :=
    echoes_of_prefix hn hp fun _ => hfar.fetchBundles_eq hp hn.oldInputs
  obtain ⟨again, after, hagain, hplan, hbundles, _⟩ :=
    replay_after hd hm hn hfirst hleads hechoes
  have hfailures : first.failures = [] := (Recorded.run_eq supply request.replay hf).2.2
  obtain ⟨hresult, rfl⟩ : Except.ok again = second.1 ∧ after = second.2.stock :=
    Prod.mk.inj (hagain.symm.trans (run_recorded request supply hfailures))
  exact ⟨again, hresult.symm, hplan, hbundles,
    operation_ne_of_bundles_eq request supply hresult.symm hbundles⟩

end Request

/-! ### When new inputs are not apart from old ones -/

/-- A store with data and what was prepared from it. -/
def Store.derived : Store :=
  .ofBundles [.mounting .dataset "raw" none [], .mounting .run "prep" (some "prep") ["raw"]]

namespace Request

/-- A request that replaces data by what was prepared from it. -/
def replaceByDerived : Request :=
  { ofDefaults "w" .standard with
    oldInputs := ["raw"]
    newInputs := ["prep"]
    memoize := true }

/-- A request that replaces the first data by the second, and what was prepared from the second. -/
def replaceBelowTwin : Request :=
  { replaceTwin with oldOutput := none }

/-- An old input that is itself below a new one makes the next replay go on, too, even if no new input
is below an old one: what the first replay takes over is that old input, so what it creates from it is
replaced by the second. -/
theorem twins_grow_again :
    (∀ id ∈ replaceBelowTwin.newInputs, ∀ level,
      ¬ Store.twins.contents.Level replaceBelowTwin.oldInputs level id) ∧
      let first := replaceBelowTwin.replay.run (Recorded.handle Stock.strokes [])
        (.ofStore Store.twins)
      let second := replaceBelowTwin.replay.run (Recorded.handle Stock.strokes [])
        (.ofStore first.2.store)
      first.2.store.contents.ids = Store.twins.contents.ids ++ ["|"] ∧
        second.2.store.contents.ids = Store.twins.contents.ids ++ ["|", "||"] := by
  have hroots : ∀ bundle ∈ Store.twins.contents.bundles, ∀ id ∈ bundle.id,
      id ∈ replaceBelowTwin.newInputs → bundle.parents = [] := by decide
  refine ⟨fun id hid level => Contents.not_level_of_root ?_ ?_, ?_, ?_⟩
  · rintro parent ⟨bundle, hb, hown, hp⟩
    rw [hroots bundle hb id hown hid] at hp
    cases hp
  · revert id hid
    decide
  · decide +kernel
  · decide +kernel

end Request

/-- A store in which data is prepared, trained on, evaluated and rated, one step after the other, and
then mixed with the rating and other data. -/
def Store.mixed : Store :=
  .ofBundles [.mounting .dataset "raw" none [], .mounting .dataset "fix" none [],
    .mounting .run "prep" (some "prep") ["raw"], .mounting .run "train" (some "train") ["prep"],
    .mounting .run "eval" (some "eval") ["train"], .mounting .run "rate" (some "rate") ["eval"],
    .mounting .run "mix" (some "mix") ["raw", "fix", "rate"]]

namespace Request

/-- A request that looks two levels down, and replaces data by what is three levels below it. -/
def replaceByDeep : Request :=
  { ofDefaults "w" .standard with
    oldInputs := ["raw", "fix"]
    newInputs := ["eval", "raw"]
    depth := 2
    shadow := true
    memoize := true }

/-- The ids of the old bundles that were planned, each with that of the new one. -/
def plannedIds (replayed : Replayed) : List (Option BundleId × Option BundleId) :=
  replayed.plan.map fun entry => (entry.old.id, entry.new.id)

/-- Deep bundles may be replayed anew.  The evaluation is too far below the old input for the first
replay.  But it is a parent of the new mix, so the second replay comes to it, and then also to the
rating; what the first one has mixed with the old rating it mixes with a new one. -/
theorem deep_replayed_anew :
    (∀ id ∈ ["eval", "rate", "mix"], replaceByDeep.Deep Store.mixed.contents id) ∧
      let first := replaceByDeep.replay.run (Recorded.handle Stock.strokes [])
        (.ofStore Store.mixed)
      let second := replaceByDeep.replay.run (Recorded.handle Stock.strokes [])
        (.ofStore first.2.store)
      first.1.map plannedIds =
          .ok [(some "prep", some "|"), (some "mix", some "||"), (some "train", some "|||")] ∧
        second.1.map plannedIds =
          .ok [(some "prep", some "|"), (some "train", some "|||"), (some "eval", some "||||"),
            (some "rate", some "|||||"), (some "mix", some "||||||"), (some "||", some "|||||||")] := by
  have hfetched : ∀ depth, "eval" ∈ Cache.idsOf
      ((Store.mixed.contents.fetchBundles ["raw", "fix"] (some depth)).toOption.getD []) ↔
        ∃ level ≤ depth, Store.mixed.contents.Level ["raw", "fix"] level "eval" := by
    intro depth
    have hok : Store.mixed.contents.fetchBundles ["raw", "fix"] (some depth) = .ok _ := rfl
    exact Contents.mem_idsOf_of_fetchBundles (by decide +kernel) hok
  obtain ⟨level, _, hlevel⟩ := (hfetched 3).mp (by decide +kernel)
  have hlt : replaceByDeep.depth < level := by
    by_contra hle
    exact absurd ((hfetched 2).mpr ⟨level, Nat.not_lt.mp hle, hlevel⟩) (by decide +kernel)
  have heval : replaceByDeep.Deep Store.mixed.contents "eval" := ⟨"eval", level, .refl, hlt, hlevel⟩
  have hrate : replaceByDeep.Deep Store.mixed.contents "rate" :=
    heval.of_edge ⟨.mounting .run "rate" (some "rate") ["eval"], by decide, rfl, by decide⟩
  have hmix : replaceByDeep.Deep Store.mixed.contents "mix" :=
    hrate.of_edge ⟨.mounting .run "mix" (some "mix") ["raw", "fix", "rate"], by decide, rfl, by decide⟩
  refine ⟨?_, ?_⟩
  · intro id hid
    simp only [List.mem_cons, List.not_mem_nil, or_false] at hid
    rcases hid with rfl | rfl | rfl
    · exact heval
    · exact hrate
    · exact hmix
  -- the kernel does not evaluate the sort of several keys
  · cbv

end Request

end Provenance
