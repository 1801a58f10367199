import Provenance.Proofs.Phases
import Provenance.Proofs.Resumption

/-!
# What kind of bundle stands in

A new bundle that is planned or created has the kind and the command of the old one.  One that is taken
over was stored before, and is found by its command and its dependencies only: it may be of another
kind.  `Plan.Lineage` says so of each entry of a plan in turn, beside the bundles stored by then.

* `Lineage.resolve`: resolving a bundle adds at most one entry.
* `Request.replay_keeps_commands`: the plan of a replay has a lineage, so all its entries keep the
  command, and all but those with an equivalent bundle the kind.
* `Request.imported_changes_kind`: what is made without a command is equivalent to a data set with the
  same dependencies.
-/

namespace Provenance

open Dialogue

/-- Where the new bundle of an entry comes from: `stored` are the bundles before it is dealt with, and
`added` is what is stored behind them then. -/
inductive PlanEntry.Origin (request : Request) (entry : PlanEntry) (stored : List Bundle) :
    (added : List Bundle) → Prop
  /-- In a dry run it is only planned. -/
  | planned (hd : request.dryRun = true) (hk : entry.new.kind = entry.old.kind) :
      Origin request entry stored []
  /-- It was stored before. -/
  | reused {existing : Bundle} (hd : request.dryRun = false) (hm : request.memoize = true)
      (hs : existing ∈ stored) (hn : entry.new = existing.explained) :
      Origin request entry stored []
  /-- It is created. -/
  | created {made : Bundle} (hd : request.dryRun = false) (hk : entry.new.kind = entry.old.kind)
      (hderived : entry.old.kind.isDerived = true) (hn : entry.new = made.explained) :
      Origin request entry stored [made]

namespace Plan

/-- The entries of a plan keep the command of the old bundle, and each has an origin: the bundles that
are stored at the end are the initial ones and what was added for the entries, in their order. -/
inductive Lineage (request : Request) (initial : List Bundle) : Plan → List Bundle → Prop
  | nil : Lineage request initial [] initial
  | snoc {plan : Plan} {stored added : List Bundle} {entry : PlanEntry}
      (h : Lineage request initial plan stored) (hc : entry.new.command = entry.old.command)
      (ho : entry.Origin request stored added) :
      Lineage request initial (plan ++ [entry]) (stored ++ added)

namespace Lineage

variable {supply : IdSupply} {request : Request} {contents : Contents} {initial stored : List Bundle}
  {plan : Plan} {entry : PlanEntry} {replayer next : Replayer} {stock after : Stock} {id : BundleId}
  {old : Bundle}

theorem exists_origin (h : Lineage request initial plan stored) (he : entry ∈ plan) :
    entry.new.command = entry.old.command ∧ ∃ before added, before ++ added <+: stored ∧
      entry.Origin request before added := by
  induction h with
  | nil => cases he
  | @snoc plan stored added last _ hc ho ih =>
      rcases List.mem_append.mp he with he | he
      · obtain ⟨hcommand, before, extra, hprefix, horigin⟩ := ih he
        exact ⟨hcommand, before, extra, hprefix.trans (List.prefix_append _ _), horigin⟩
      · obtain rfl := List.mem_singleton.mp he
        exact ⟨hc, stored, added, List.prefix_rfl, ho⟩

theorem kind_eq (h : Lineage request initial plan stored) (he : entry ∈ plan) :
    (entry.new.kind = entry.old.kind ∧
        (request.dryRun = false → entry.old.kind.isDerived = true)) ∨
      (request.dryRun = false ∧ request.memoize = true ∧
        ∃ existing ∈ stored, entry.new = existing.explained) := by
  obtain ⟨_, before, added, hprefix, horigin⟩ := h.exists_origin he
  cases horigin with
  | planned hd hk => exact .inl ⟨hk, fun hreal => nomatch hd.symm.trans hreal⟩
  | reused hd hm hs hn =>
      exact .inr ⟨hd, hm, _, hprefix.subset (List.mem_append_left _ hs), hn⟩
  | created _ hk hderived => exact .inl ⟨hk, fun _ => hderived⟩

/-- **Resolving a bundle** adds an entry with an origin, or none. -/
theorem resolve (h : Lineage request initial replayer.plan stock.contents.bundles)
    (hr : Replayer.Resolution supply (request.inIds contents) replayer id old stock next after) :
    Lineage request initial next.plan after.contents.bundles := by
  cases hr with
  | unaffected => exact h
  | planned _ hd =>
      rw [← List.append_nil stock.contents.bundles]
      exact h.snoc rfl (.planned hd rfl)
  | reused _ hd hm hs =>
      obtain ⟨existing, hstored, hcommand, rfl⟩ := Contents.exists_of_getLast?_searchBundles hs
      rw [← List.append_nil stock.contents.bundles]
      exact h.snoc hcommand (.reused hd hm hstored rfl)
  | created _ hd _ hk hs =>
      obtain ⟨rfl, hbundles, _⟩ := hs.createBundle
      rw [hbundles]
      exact h.snoc rfl (.created hd rfl hk rfl)

theorem kept (request : Request) (contents : Contents) (initial : List Bundle) (cache : Cache)
    (start : Replayer) (ids : List BundleId) :
    Replayer.Kept supply (request.inIds contents) cache start ids fun replayer stock =>
      Lineage request initial replayer.plan stock.contents.bundles where
  keep h _ _ _ := h
  resolve h _ _ _ _ hr := h.resolve hr

end Lineage

end Plan

namespace Request

/-- **What a replay keeps of an old bundle.**  The plan of a replay that succeeds has a lineage.  So
every new bundle has the command of the old one, and also its kind, which is that of a derived bundle
unless this is a dry run; but where a stored bundle is taken over, this may be of any kind. -/
theorem replay_keeps_commands (request : Request) (supply : IdSupply)
    (schedule : List (Nat × StoreError)) (recorded : Recorded) {replayed : Replayed}
    (hr : (request.replay.run (Recorded.handle supply schedule) recorded).1 = .ok replayed) :
    let initial := recorded.store.contents.bundles
    let final :=
      (request.replay.run (Recorded.handle supply schedule) recorded).2.store.contents.bundles
    Plan.Lineage request initial replayed.plan final ∧
      ∀ entry ∈ replayed.plan, entry.new.command = entry.old.command ∧
        ((entry.new.kind = entry.old.kind ∧
            (request.dryRun = false → entry.old.kind.isDerived = true)) ∨
          (request.dryRun = false ∧ request.memoize = true ∧
            ∃ existing ∈ final, entry.new = existing.explained)) := by
  intro initial final
  have hserves := Recorded.handle_serves supply schedule
  obtain ⟨⟨named, replayer⟩, htraverse, hfinish⟩ := run_eq_finish hr
  have hlineage := (traverse_ensures request .nil fun cache ids =>
    Plan.Lineage.kept request recorded.stock.contents initial cache _ ids).run hserves named replayer
      htraverse
  obtain ⟨hbundles, hplan⟩ := (finish_ensures (named, replayer)).run hserves
  rw [← hfinish] at hbundles hplan
  rw [← hplan replayed hr, ← hbundles] at hlineage
  exact ⟨hlineage, fun entry he => ⟨(hlineage.exists_origin he).1, hlineage.kind_eq he⟩⟩

/-- Whatever is made of the diamond is a run with the command of the old one. -/
theorem diamond_keeps_commands : ∃ replayed,
    ((diamond (some "eval")).replay.run (Recorded.handle Stock.strokes [])
      (.ofStore Store.diamond)).1 = .ok replayed ∧
    (replayed.plan.map fun entry => entry.new.id) = [some "|", some "||", some "|||"] ∧
    ∀ entry ∈ replayed.plan, entry.new.command = entry.old.command ∧
      entry.new.kind = entry.old.kind ∧ entry.old.kind.isDerived = true := by
  have hplan : ((diamond (some "eval")).replay.run (Recorded.handle Stock.strokes [])
      (.ofStore Store.diamond)).1.toOption.map
        (fun replayed => replayed.plan.map fun entry => entry.new.id) =
      some [some "|", some "||", some "|||"] := by
    decide +kernel
  cases hr : ((diamond (some "eval")).replay.run (Recorded.handle Stock.strokes [])
      (.ofStore Store.diamond)).1 with
  | error error =>
      rw [hr] at hplan
      cases hplan
  | ok replayed =>
      rw [hr] at hplan
      refine ⟨replayed, rfl, Option.some.inj hplan, fun entry he => ?_⟩
      obtain ⟨hcommand, hkind⟩ := (replay_keeps_commands (diamond (some "eval")) Stock.strokes []
        (.ofStore Store.diamond) hr).2 entry he
      obtain ⟨hsame, hderived⟩ | ⟨_, hmemoize, _⟩ := hkind
      · exact ⟨hcommand, hsame, hderived rfl⟩
      · cases hmemoize

end Request

/-- A store with what was made from the raw data, and data that was imported along with the fixed data
and depends on it the same way. -/
def Store.imported : Store :=
  .ofBundles [.mounting .dataset "raw" none [], .mounting .dataset "fix" none [],
    .mounting .make "prep" none ["raw"], .mounting .dataset "copy" none ["fix"]]

namespace Request

/-- With equivalent bundles, a data set stands in for what was made: neither has a command. -/
theorem imported_changes_kind :
    (chain (some "prep")).dryRun = false ∧ (chain (some "prep")).memoize = true ∧
      ((chain (some "prep")).replay.run (Recorded.handle Stock.strokes [])
        (.ofStore Store.imported)).1.toOption.map (fun replayed => replayed.plan.map fun entry =>
          ((entry.old.id, entry.old.kind), (entry.new.id, entry.new.kind))) =
        some [((some "prep", .make), (some "copy", .dataset))] := by
  refine ⟨rfl, rfl, ?_⟩
  decide +kernel

end Request

end Provenance
