import Mathlib.Data.Prod.Lex
import Mathlib.Data.String.Basic
import Provenance.Proofs.Atomicity
import Provenance.Proofs.Memoization

/-!
# Equivalent bundles

A search goes by sorted lists of dependency keys.  Keys are ordered, the parent before the path
(`DependencyKey.le_iff`), so two lists are the same when they are sorted exactly if the one is a
permutation of the other: `Contents.sortedKeys_eq_iff`.

`Bundle.Equivalent` says this of a bundle without any sorting, and `Contents.searchBundles_eq` that
such bundles are found.  Main statement: `Store.searchBundles_finds_equivalents`.
-/

namespace Provenance

open Dialogue

/-! ### The order of keys -/

namespace DependencyKey

/-- The parts of a key, the one that counts first in front. -/
def parts (key : DependencyKey) : String ×ₗ String :=
  toLex (key.parentId, key.childPath)

theorem le_iff {a b : DependencyKey} : a.le b = true ↔ a.parts ≤ b.parts := by
  simp [le, parts, Prod.Lex.toLex_le_toLex]

theorem parts_injective : Function.Injective parts := by
  rintro ⟨parent, path⟩ ⟨parent', path'⟩ h
  obtain ⟨rfl, rfl⟩ := Prod.mk.inj (toLex.injective h)
  rfl

end DependencyKey

/-- A bundle has a command and, in whatever order, these dependency keys, each of them as often. -/
def Bundle.Equivalent (bundle : Bundle) (command : Option String) (keys : List DependencyKey) :
    Prop :=
  bundle.command = command ∧ bundle.keys.Perm keys

instance (bundle : Bundle) (command : Option String) (keys : List DependencyKey) :
    Decidable (bundle.Equivalent command keys) :=
  inferInstanceAs (Decidable (_ ∧ _))

namespace Contents

variable {contents : Contents} {command : Option String} {keys keys' : List DependencyKey}
  {bundle found : Bundle}

theorem sortedKeys_perm (keys : List DependencyKey) : (sortedKeys keys).Perm keys :=
  List.mergeSort_perm keys DependencyKey.le

theorem sortedKeys_pairwise (keys : List DependencyKey) :
    (sortedKeys keys).Pairwise fun a b => a.parts ≤ b.parts := by
  have hsorted : (sortedKeys keys).Pairwise fun a b => a.le b = true := by
    refine List.pairwise_mergeSort ?_ ?_ keys
    · intro a b c hab hbc
      rw [DependencyKey.le_iff] at hab hbc ⊢
      exact hab.trans hbc
    · intro a b
      rw [Bool.or_eq_true, DependencyKey.le_iff, DependencyKey.le_iff]
      exact le_total a.parts b.parts
  exact hsorted.imp DependencyKey.le_iff.mp

/-- **Sorting forgets the order and nothing else.** -/
theorem sortedKeys_eq_iff : sortedKeys keys = sortedKeys keys' ↔ keys.Perm keys' := by
  constructor
  · intro h
    have hperm := sortedKeys_perm keys
    rw [h] at hperm
    exact hperm.symm.trans (sortedKeys_perm keys')
  · intro h
    refine List.Perm.eq_of_pairwise ?_ (sortedKeys_pairwise keys) (sortedKeys_pairwise keys') ?_
    · intro a b _ _ hab hba
      exact DependencyKey.parts_injective (le_antisymm hab hba)
    · exact (sortedKeys_perm keys).trans (h.trans (sortedKeys_perm keys').symm)

/-! ### What is found -/

/-- The equivalent bundles are found, as often and in the order in which they are stored. -/
theorem searchBundles_eq (contents : Contents) (command : Option String)
    (keys : List DependencyKey) :
    contents.searchBundles command keys =
      (contents.bundles.filter fun bundle => bundle.Equivalent command keys).map
        Bundle.explained := by
  refine congrArg (List.map Bundle.explained) (List.filter_congr fun bundle _ => ?_)
  rw [decide_eq_decide, sortedKeys_eq_iff, Bundle.Equivalent]

theorem getLast?_searchBundles_iff :
    (contents.searchBundles command keys).getLast? = some found ↔ ∃ earlier bundle later,
      contents.bundles = earlier ++ bundle :: later ∧ bundle.Equivalent command keys ∧
        (∀ other ∈ later, ¬ other.Equivalent command keys) ∧ found = bundle.explained := by
  rw [searchBundles_eq, List.getLast?_map, Option.map_eq_some_iff]
  simp only [getLast?_filter_eq_some_iff, decide_eq_true_eq]
  constructor
  · rintro ⟨bundle, ⟨hlike, earlier, later, hb, hlater⟩, rfl⟩
    exact ⟨earlier, bundle, later, hb, hlike, hlater, rfl⟩
  · rintro ⟨earlier, bundle, later, hb, hlike, hlater, rfl⟩
    exact ⟨bundle, ⟨hlike, earlier, later, hb, hlater⟩, rfl⟩

theorem getLast?_searchBundles_eq_none_iff :
    (contents.searchBundles command keys).getLast? = none ↔
      ∀ bundle ∈ contents.bundles, ¬ bundle.Equivalent command keys := by
  rw [List.getLast?_eq_none_iff, searchBundles_eq, List.map_eq_nil_iff, List.filter_eq_nil_iff]
  simp only [decide_eq_true_eq]

theorem getLast?_searchBundles_of_append {other : Contents} {new : Bundle}
    (h : other.bundles = contents.bundles ++ [new]) (hk : keys.Perm new.keys) :
    (other.searchBundles new.command keys).getLast? = some new.explained := by
  rw [searchBundles_append h, if_pos ⟨rfl, sortedKeys_eq_iff.mpr hk.symm⟩]
  exact List.getLast?_concat

end Contents

namespace Store

variable {supply : IdSupply} {store after : Store}

theorem handle_searchBundles (hf : store.failures = []) (supply : IdSupply)
    (command : Option String) (keys : List DependencyKey) :
    (handle supply (.searchBundles command keys) store).1 =
      .ok (store.contents.searchBundles command keys) := by
  rw [handle_of_answer hf rfl]

theorem run_latestEquivalent (handler : Handler Store) (command : Option String)
    (keys : List DependencyKey) (store : Store) :
    ((latestEquivalent command keys).run handler store).1 =
      (handler (.searchBundles command keys) store).1.map List.getLast? := rfl

theorem handle_searchBundles_congr {keys keys' : List DependencyKey} (h : keys'.Perm keys)
    (supply : IdSupply) (command : Option String) (store : Store) :
    handle supply (.searchBundles command keys') store =
      handle supply (.searchBundles command keys) store := by
  simp only [handle, answer, Call.operation,
    Contents.searchBundles_congr (Contents.sortedKeys_eq_iff.mpr h)]

/-- A bundle that was just created is the latest of its kind. -/
theorem run_latestEquivalent_of_created {description made : Bundle} {target : WorksheetId}
    {placement : CreatePlacement}
    (h : handle supply (.createBundle description target placement) store = (.ok made, after))
    {keys : List DependencyKey} (hk : keys.Perm description.keys) :
    ((latestEquivalent description.command keys).run (handle supply) after).1 =
      .ok (some made) := by
  have hf : store.failures = [] := failures_of_handle_eq_ok (congrArg Prod.fst h)
  have hserves := handle_serves supply (.createBundle description target placement) store
  have hfailures := (handle_counts supply (.createBundle description target placement) store).2
  rw [h] at hserves hfailures
  rw [hf] at hfailures
  obtain ⟨rfl, hbundles, _⟩ := hserves.createBundle
  have hkeys := keys_newBundle store.contents description (supply store.allocated)
  have hlast := Contents.getLast?_searchBundles_of_append hbundles (hkeys ▸ hk)
  rw [run_latestEquivalent, handle_searchBundles hfailures]
  exact congrArg Except.ok hlast

/-- **What is equivalent is found.**  A search finds the bundles that have its command and, in whatever
order, its keys, each key as often: all of them, in the order in which they are stored, with their
states explained.  The latest of them is the last one that is stored, and there is none exactly if no
bundle is equivalent.  A bundle that was just created is the latest one for its own command and keys.

A failure that is queued for the search is all that it meets. -/
theorem searchBundles_finds_equivalents (supply : IdSupply) (store : Store)
    (command : Option String) (keys : List DependencyKey) :
    let search := fun keys => handle supply (.searchBundles command keys) store
    let latest := ((latestEquivalent command keys).run (handle supply) store).1
    (∀ keys', keys'.Perm keys → search keys' = search keys) ∧
      (∀ error failures, store.failures = error :: failures →
        (search keys).1 = .error error ∧ latest = .error error) ∧
      (store.failures = [] →
        (search keys).1 = .ok ((store.contents.bundles.filter fun bundle =>
          bundle.Equivalent command keys).map Bundle.explained) ∧
        (∀ found, latest = .ok (some found) ↔ ∃ earlier bundle later,
          store.contents.bundles = earlier ++ bundle :: later ∧ bundle.Equivalent command keys ∧
            (∀ other ∈ later, ¬ other.Equivalent command keys) ∧ found = bundle.explained) ∧
        (latest = .ok none ↔
          ∀ bundle ∈ store.contents.bundles, ¬ bundle.Equivalent command keys)) ∧
      ∀ description target placement made after,
        handle supply (.createBundle description target placement) store = (.ok made, after) →
          ∀ keys', keys'.Perm description.keys →
            ((latestEquivalent description.command keys').run (handle supply) after).1 =
              .ok (some made) := by
  intro search latest
  refine ⟨fun keys' h => handle_searchBundles_congr h supply command store, ?_, ?_, ?_⟩
  · intro error failures hf
    have hqueued : (search keys).1 = .error error := congrArg Prod.fst (handle_of_queued hf supply _)
    refine ⟨hqueued, ?_⟩
    simp only [latest, run_latestEquivalent]
    exact congrArg (Except.map List.getLast?) hqueued
  · intro hf
    have hfound : (search keys).1 = .ok (store.contents.searchBundles command keys) :=
      handle_searchBundles hf supply command keys
    have hlast : latest = .ok (store.contents.searchBundles command keys).getLast? :=
      congrArg (Except.map List.getLast?) hfound
    refine ⟨?_, fun found => ?_, ?_⟩
    · rw [hfound, Contents.searchBundles_eq]
    · rw [hlast, Except.ok.injEq, Contents.getLast?_searchBundles_iff]
    · rw [hlast, Except.ok.injEq, Contents.getLast?_searchBundles_eq_none_iff]
  · intro description target placement made after hmade keys' hperm
    exact run_latestEquivalent_of_created hmade hperm

/-- A store in which two bundles merge the same parents in different orders, and a third one merges
them in another proportion. -/
def merged : Store :=
  .ofBundles [.mounting .dataset "raw" none [], .mounting .dataset "fix" none [],
    .mounting .run "first" (some "merge") ["raw", "fix", "raw"],
    .mounting .run "second" (some "merge") ["fix", "raw", "raw"],
    .mounting .run "third" (some "merge") ["fix", "raw", "fix"]]

/-- Of the bundles that merge two parts of the raw data and one of the fixed, the second is the latest,
until one more is created. -/
theorem searchBundles_finds_merged :
    let wanted := Bundle.mounting .run "fourth" (some "merge") ["raw", "raw", "fix"]
    let same := Bundle.mounting .run "fifth" (some "merge") ["fix", "raw", "raw"]
    let created := handle Stock.strokes (.createBundle wanted "w" .detached) merged
    (handle Stock.strokes (.searchBundles (some "merge") wanted.keys) merged).1.map
        (·.map Bundle.id) = .ok [some "first", some "second"] ∧
      same.keys.Perm wanted.keys ∧ ∃ made, created.1 = .ok made ∧ made.id = some "|" ∧
        ((latestEquivalent (some "merge") same.keys).run (handle Stock.strokes) created.2).1 =
          .ok (some made) := by
  intro wanted same created
  have hperm : same.keys.Perm wanted.keys := by decide
  obtain ⟨_, _, hcalm, hcreated⟩ :=
    searchBundles_finds_equivalents Stock.strokes merged (some "merge") wanted.keys
  refine ⟨?_, hperm, (merged.contents.newBundle wanted "|").explained, rfl, rfl, ?_⟩
  · rw [(hcalm rfl).1]
    decide
  · exact hcreated wanted "w" .detached _ _ rfl same.keys hperm

end Store

end Provenance
