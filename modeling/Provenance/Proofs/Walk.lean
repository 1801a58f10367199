import Mathlib.Data.List.Chain
import Provenance.Proofs.Graph
import Provenance.Proofs.Resolution
import Provenance.Replay.Traversal

/-!
# What a walk keeps

A walk settles one bundle after another: one beyond the cache stands in for itself, any other is
resolved when its parents are mapped or on the path.  `Kept` says of an invariant that both keep it.
The path is a chain of edges (`Trail`), so a parent on it is an ancestor of itself by way of the
bundle that is resolved; on a graph without cycles there is none, and all parents are mapped.

* `walk_ensures`: a walk keeps every such invariant, and with `weight` moves it comes to its end.
* `substituteAll_ensures` and `substituteEach_ensures` carry this over to sequences of walks, where
  the second goes on when a walk fails.
-/

namespace Provenance

open Dialogue Relation

namespace Replayer

/-- Asks what stands in for each of some old bundles, also when asking for one of them failed. -/
def substituteEach (request : Request) (cache : Cache) (replayer : Replayer) :
    List BundleId → Dialogue Replayer
  | [] => return replayer
  | id :: ids => do
    let (_, next) ← replayer.substitute request cache id
    next.substituteEach request cache ids

/-- A walk for one of some ids may come to a bundle: it goes up from bundles that nothing stood in
for when it began. -/
def Visits (start : Replayer) (cache : Cache) (ids : List BundleId) (current : BundleId) : Prop :=
  ∃ id ∈ ids, ReflTransGen
    (fun child parent => ¬ start.substitutions.contains child = true ∧ cache.Edge child parent)
    id current

/-- Settling a bundle that the walks for some ids come to keeps an invariant. -/
structure Kept (supply : IdSupply) (request : Request) (cache : Cache) (start : Replayer)
    (ids : List BundleId) (inv : Replayer → Stock → Prop) : Prop where
  keep : ∀ {replayer : Replayer} {stock : Stock} {current : BundleId}, inv replayer stock →
    ¬ replayer.substitutions.contains current = true → start.Visits cache ids current →
    cache.get? current = none → inv (replayer.map current (some current)) stock
  resolve : ∀ {replayer next : Replayer} {stock after : Stock} {current : BundleId} {old : Bundle},
    inv replayer stock → ¬ replayer.substitutions.contains current = true →
    start.Visits cache ids current → cache.get? current = some old →
    (∀ parent ∈ old.parents,
      replayer.substitutions.contains parent = true ∨ TransGen cache.Edge parent current) →
    Resolution supply request replayer current old stock next after → inv next after

variable {supply : IdSupply} {stock after : Stock} {request : Request} {cache : Cache}
  {start replayer next : Replayer} {ids : List BundleId} {id current parent other : BundleId}
  {old : Bundle} {path : List BundleId}

/-! ### What is mapped stays -/

@[simp] theorem map_substitutions (new : Option BundleId) :
    (replayer.map id new).substitutions = replayer.substitutions.add id new := rfl

theorem Resolution.exists_add (h : Resolution supply request replayer id old stock next after) :
    ∃ new, next.substitutions = replayer.substitutions.add id new := by
  cases h with
  | unaffected => exact ⟨_, rfl⟩
  | planned => exact ⟨_, rfl⟩
  | reused => exact ⟨_, rfl⟩
  | created => exact ⟨_, rfl⟩

theorem Resolution.contains_iff (h : Resolution supply request replayer id old stock next after) :
    next.substitutions.contains other = true ↔
      other = id ∨ replayer.substitutions.contains other = true := by
  obtain ⟨new, hn⟩ := h.exists_add
  rw [hn, Register.contains_add]

/-! ### The path -/

/-- The path of a walk that began in the state `start` to ask for `id`, one of some ids. -/
structure Trail (cache : Cache) (start : Replayer) (ids : List BundleId) (id : BundleId)
    (replayer : Replayer) (path : List BundleId) : Prop where
  chain : path.IsChain fun parent child => cache.Edge child parent
  visits : ∀ current ∈ path, start.Visits cache ids current
  bottom : id ∈ path ∨ replayer.substitutions.contains id = true
  grown : ∀ other, start.substitutions.contains other = true →
    replayer.substitutions.contains other = true

namespace Trail

theorem enter (h : Trail cache start ids id replayer (current :: path))
    (hc : ¬ replayer.substitutions.contains current = true) (he : cache.Edge current parent) :
    Trail cache start ids id replayer (parent :: current :: path) := by
  refine ⟨.cons_cons he h.chain, ?_, h.bottom.imp_left (List.mem_cons_of_mem _), h.grown⟩
  intro other ho
  rcases List.mem_cons.mp ho with rfl | ho
  · obtain ⟨low, hl, hv⟩ := h.visits current List.mem_cons_self
    exact ⟨low, hl, hv.tail ⟨fun hs => hc (h.grown current hs), he⟩⟩
  · exact h.visits other ho

theorem leave (h : Trail cache start ids id replayer (current :: path))
    (hn : ∀ other, next.substitutions.contains other = true ↔
      other = current ∨ replayer.substitutions.contains other = true) :
    Trail cache start ids id next path := by
  refine ⟨h.chain.tail, fun other ho => h.visits other (List.mem_cons_of_mem _ ho), ?_, ?_⟩
  · rcases h.bottom with hb | hb
    · rcases List.mem_cons.mp hb with rfl | hb
      · exact .inr ((hn id).mpr (.inl rfl))
      · exact .inl hb
    · exact .inr ((hn id).mpr (.inr hb))
  · intro other ho
    exact (hn other).mpr (.inr (h.grown other ho))

/-- What is on the path below its end is below it in the graph. -/
theorem transGen (h : (current :: path).IsChain fun parent child => cache.Edge child parent)
    (hp : other ∈ path) : TransGen cache.Edge other current := by
  induction path generalizing current with
  | nil => cases hp
  | cons child path ih =>
      obtain ⟨he, hchain⟩ := List.isChain_cons_cons.mp h
      rcases List.mem_cons.mp hp with rfl | hp
      · exact .single he
      · exact (ih hchain hp).tail he

/-- With no parent left to enter, each is mapped or on a cycle. -/
theorem parents (h : Trail cache start ids id replayer (current :: path))
    (hc : cache.get? current = some old) (hp : replayer.pending? (current :: path) old = none)
    (hparent : parent ∈ old.parents) :
    replayer.substitutions.contains parent = true ∨ TransGen cache.Edge parent current := by
  have hnot := List.find?_eq_none.mp hp parent hparent
  by_cases hm : replayer.substitutions.contains parent = true
  · exact .inl hm
  · have hpath : parent ∈ current :: path := by
      by_contra hn
      exact hnot (by simp [hm, List.mem_cons.not.mp hn])
    rcases List.mem_cons.mp hpath with rfl | hpath
    · exact .inr (.single ⟨old, hc, hparent⟩)
    · exact .inr (transGen h.chain hpath)

end Trail

/-! ### How long a walk is -/

/-- The ids that a walk for an id may still enter. -/
def ahead (cache : Cache) (id : BundleId) (replayer : Replayer) (path : List BundleId) :
    List BundleId :=
  (reach cache id).filter fun other => ¬ replayer.substitutions.contains other ∧ other ∉ path

/-- How many moves a walk may still make: one for each bundle on the path, and two for each that
may be entered. -/
def weight (cache : Cache) (id : BundleId) (replayer : Replayer) (path : List BundleId) : Nat :=
  2 * (ahead cache id replayer path).length + path.length

theorem mem_ahead : other ∈ ahead cache id replayer path ↔
    other ∈ reach cache id ∧ ¬ replayer.substitutions.contains other = true ∧ other ∉ path := by
  rw [ahead, List.mem_filter, decide_eq_true_eq]

theorem weight_leave (cache : Cache) (id : BundleId) (path : List BundleId)
    (hn : ∀ other, next.substitutions.contains other = true ↔
      other = current ∨ replayer.substitutions.contains other = true) :
    weight cache id next path < weight cache id replayer (current :: path) := by
  have hsub : ahead cache id next path = ahead cache id replayer (current :: path) := by
    refine List.filter_congr ?_
    intro other _
    rw [decide_eq_decide, hn, List.mem_cons]
    tauto
  rw [weight, weight, hsub, List.length_cons]
  omega

theorem mem_reach (id : BundleId) (hc : cache.get? current = some old) (hp : parent ∈ old.parents) :
    parent ∈ reach cache id := by
  refine List.mem_cons_of_mem _ (List.mem_flatMap.mpr ⟨(current, old), ?_, hp⟩)
  exact Register.mem_of_get? hc

theorem weight_enter (hr : parent ∈ reach cache id)
    (hc : ¬ replayer.substitutions.contains parent = true) (hp : parent ∉ path) :
    weight cache id replayer (parent :: path) < weight cache id replayer path := by
  have hsub : ahead cache id replayer (parent :: path) =
      (ahead cache id replayer path).filter (· ≠ parent) := by
    rw [ahead, ahead, List.filter_filter]
    refine List.filter_congr ?_
    intro other _
    simp only [List.mem_cons, decide_not]
    grind
  have hlt : (ahead cache id replayer (parent :: path)).length <
      (ahead cache id replayer path).length := by
    rw [hsub]
    exact List.length_filter_lt_length_iff_exists.mpr ⟨parent, mem_ahead.mpr ⟨hr, hc, hp⟩, by simp⟩
  rw [weight, weight, List.length_cons]
  omega

/-- Two moves for each id that can be reached are enough for a walk. -/
theorem weight_le (id : BundleId) : weight cache id replayer [id] ≤ 2 * (reach cache id).length := by
  have hlt : (ahead cache id replayer [id]).length < (reach cache id).length :=
    List.length_filter_lt_length_iff_exists.mpr ⟨id, List.mem_cons_self, by simp⟩
  rw [weight, List.length_singleton]
  omega

/-! ### Walks -/

variable {inv : Replayer → Stock → Prop}

theorem move_eq_leave (h : replayer.move cache current path = .leave) :
    replayer.substitutions.contains current = true := by
  unfold move at h
  split at h
  · assumption
  · split at h
    · cases h
    · split at h <;> cases h

theorem move_eq_keep (h : replayer.move cache current path = .keep) :
    ¬ replayer.substitutions.contains current = true ∧ cache.get? current = none := by
  unfold move at h
  split at h
  · cases h
  · rename_i hc
    split at h
    · rename_i hn
      exact ⟨hc, hn⟩
    · split at h <;> cases h

theorem move_eq_enter (h : replayer.move cache current path = .enter parent) :
    ¬ replayer.substitutions.contains current = true ∧ ∃ old, cache.get? current = some old ∧
      parent ∈ old.parents ∧ ¬ replayer.substitutions.contains parent = true ∧
      parent ∉ current :: path := by
  unfold move at h
  split at h
  · cases h
  · rename_i hc
    split at h
    · cases h
    · rename_i old ho
      split at h
      · rename_i found hf
        cases h
        have hp : ¬ replayer.substitutions.contains parent = true ∧ parent ∉ current :: path := by
          simpa using List.find?_some hf
        exact ⟨hc, old, ho, List.mem_of_find?_eq_some hf, hp⟩
      · cases h

theorem move_eq_resolve (h : replayer.move cache current path = .resolve old) :
    ¬ replayer.substitutions.contains current = true ∧ cache.get? current = some old ∧
      replayer.pending? (current :: path) old = none := by
  unfold move at h
  split at h
  · cases h
  · rename_i hc
    split at h
    · cases h
    · rename_i ho
      split at h
      · cases h
      · rename_i hp
        cases h
        exact ⟨hc, ho, hp⟩

/-- **A walk keeps an invariant** that settling a bundle keeps, and ends where it began unless it
fails. -/
theorem walk_ensures (hk : Kept supply request cache start ids inv) (moves : Nat)
    (hw : weight cache id replayer path ≤ moves) (ht : Trail cache start ids id replayer path)
    (hinv : inv replayer stock) :
    (replayer.walk request cache moves path).Ensures supply stock fun result after =>
      inv result.2 after ∧
      (∀ other, start.substitutions.contains other = true →
        result.2.substitutions.contains other = true) ∧
      ∀ rest, result.1 = .ok rest → result.2.substitutions.contains id = true := by
  induction moves generalizing replayer stock path with
  | zero =>
      have hp : path = [] := by
        rw [weight] at hw
        exact List.length_eq_zero_iff.mp (by omega)
      subst hp
      exact ⟨hinv, ht.grown, fun _ _ => ht.bottom.resolve_left List.not_mem_nil⟩
  | succ moves ih =>
      cases path with
      | nil => exact ⟨hinv, ht.grown, fun _ _ => ht.bottom.resolve_left List.not_mem_nil⟩
      | cons current path =>
          rw [walk]
          split
          · rename_i hmove
            have hsame : ∀ other, replayer.substitutions.contains other = true ↔
                other = current ∨ replayer.substitutions.contains other = true := by
              intro other
              have := move_eq_leave hmove
              constructor
              · exact .inr
              · rintro (rfl | ho)
                · exact this
                · exact ho
            have hlt := weight_leave cache id path hsame
            exact ih (by omega) (ht.leave hsame) hinv
          · rename_i hmove
            obtain ⟨hc, hn⟩ := move_eq_keep hmove
            have hadd : ∀ other,
                (replayer.map current (some current)).substitutions.contains other = true ↔
                  other = current ∨ replayer.substitutions.contains other = true :=
              fun other => replayer.substitutions.contains_add current other _
            have hlt := weight_leave cache id path hadd
            exact ih (by omega) (ht.leave hadd)
              (hk.keep hinv hc (ht.visits current List.mem_cons_self) hn)
          · rename_i parent hmove
            obtain ⟨hc, old, ho, hp, hpc, hpath⟩ := move_eq_enter hmove
            have hlt := weight_enter (mem_reach id ho hp) hpc hpath
            exact ih (by omega) (ht.enter hc ⟨old, ho, hp⟩) hinv
          · rename_i old hmove
            obtain ⟨hc, ho, hp⟩ := move_eq_resolve hmove
            refine (resolve_ensures replayer request current old).bind ?_
            rintro outcome after ⟨herror, hok⟩
            cases outcome with
            | error error =>
                obtain rfl := herror error rfl
                refine ⟨hinv, ht.grown, ?_⟩
                rintro _ ⟨⟩
            | ok next =>
                have hr := hok next rfl
                have hadd : ∀ other, next.substitutions.contains other = true ↔
                    other = current ∨ replayer.substitutions.contains other = true :=
                  fun other => hr.contains_iff
                have hlt := weight_leave cache id path hadd
                exact ih (by omega) (ht.leave hadd)
                  (hk.resolve hinv hc (ht.visits current List.mem_cons_self) ho
                    (fun parent hparent => ht.parents ho hp hparent) hr)

/-! ### Sequences of walks -/

/-- When more is mapped, walks come to less. -/
theorem Visits.mono {later : Replayer} (hg : ∀ other, start.substitutions.contains other = true →
      later.substitutions.contains other = true) (h : later.Visits cache ids current) :
    start.Visits cache ids current := by
  obtain ⟨id, hid, hv⟩ := h
  exact ⟨id, hid, ReflTransGen.mono (fun child _ hs => ⟨fun hc => hs.1 (hg child hc), hs.2⟩) _ _ hv⟩

theorem Kept.mono {later : Replayer} (hg : ∀ other, start.substitutions.contains other = true →
      later.substitutions.contains other = true) (h : Kept supply request cache start ids inv) :
    Kept supply request cache later ids inv where
  keep hinv hc hv hn := h.keep hinv hc (hv.mono hg) hn
  resolve hinv hc hv ho hp hr := h.resolve hinv hc (hv.mono hg) ho hp hr

theorem Kept.and {inv' : Replayer → Stock → Prop} (h : Kept supply request cache start ids inv)
    (h' : Kept supply request cache start ids inv') :
    Kept supply request cache start ids fun replayer stock =>
      inv replayer stock ∧ inv' replayer stock where
  keep hinv hc hv hn := ⟨h.keep hinv.1 hc hv hn, h'.keep hinv.2 hc hv hn⟩
  resolve hinv hc hv ho hp hr := ⟨h.resolve hinv.1 hc hv ho hp hr, h'.resolve hinv.2 hc hv ho hp hr⟩

theorem substitute_ensures (hk : Kept supply request cache replayer ids inv) (hid : id ∈ ids)
    (hinv : inv replayer stock) :
    (replayer.substitute request cache id).Ensures supply stock fun result after =>
      inv result.2 after ∧
      (∀ other, replayer.substitutions.contains other = true →
        result.2.substitutions.contains other = true) ∧
      ∀ new, result.1 = .ok new → result.2.substitutions.contains id = true := by
  unfold substitute
  cases hs : replayer.substitutions.get? id with
  | some new => exact ⟨hinv, fun _ ho => ho, fun _ _ => by simp [Register.contains, hs]⟩
  | none =>
      have ht : Trail cache replayer ids id replayer [id] := by
        refine ⟨.singleton id, ?_, .inl List.mem_cons_self, fun _ ho => ho⟩
        intro current hc
        obtain rfl := List.mem_singleton.mp hc
        exact ⟨current, hid, .refl⟩
      refine (walk_ensures hk _ (weight_le id) ht hinv).bind ?_
      rintro ⟨outcome, next⟩ after ⟨hinv', hgrown, hmapped⟩
      cases outcome with
      | error error =>
          refine ⟨hinv', hgrown, ?_⟩
          rintro _ ⟨⟩
      | ok rest => exact ⟨hinv', hgrown, fun _ _ => hmapped rest rfl⟩

/-- Asking for some bundles, one after another, keeps an invariant, and maps each of them unless it
fails. -/
theorem substituteAll_ensures {todo : List BundleId} (htodo : ∀ id ∈ todo, id ∈ ids)
    (hk : Kept supply request cache replayer ids inv) (hinv : inv replayer stock) :
    (replayer.substituteAll request cache todo).Ensures supply stock fun result after =>
      inv result.2 after ∧
      (∀ other, replayer.substitutions.contains other = true →
        result.2.substitutions.contains other = true) ∧
      (result.1 = .ok () → ∀ id ∈ todo, result.2.substitutions.contains id = true) := by
  induction todo generalizing replayer stock with
  | nil => exact ⟨hinv, fun _ ho => ho, by simp⟩
  | cons id todo ih =>
      rw [substituteAll]
      refine (substitute_ensures hk (htodo id List.mem_cons_self) hinv).bind ?_
      rintro ⟨outcome, next⟩ after ⟨hinv', hgrown, hmapped⟩
      cases outcome with
      | error error =>
          refine ⟨hinv', hgrown, ?_⟩
          rintro ⟨⟩
      | ok new =>
          refine (ih (fun other ho => htodo other (List.mem_cons_of_mem _ ho)) (hk.mono hgrown)
            hinv').mono ?_
          rintro ⟨outcome, last⟩ after ⟨hinv'', hgrown', hmapped'⟩
          refine ⟨hinv'', fun other ho => hgrown' other (hgrown other ho), ?_⟩
          intro hok other ho
          rcases List.mem_cons.mp ho with rfl | ho
          · exact hgrown' other (hmapped new rfl)
          · exact hmapped' hok other ho

/-- Asking for some bundles keeps an invariant, whether or not it fails for some of them. -/
theorem substituteEach_ensures {todo : List BundleId} (htodo : ∀ id ∈ todo, id ∈ ids)
    (hk : Kept supply request cache replayer ids inv) (hinv : inv replayer stock) :
    (replayer.substituteEach request cache todo).Ensures supply stock inv := by
  induction todo generalizing replayer stock with
  | nil => exact hinv
  | cons id todo ih =>
      rw [substituteEach]
      refine (substitute_ensures hk (htodo id List.mem_cons_self) hinv).bind ?_
      rintro ⟨outcome, next⟩ after ⟨hinv', hgrown, _⟩
      exact ih (fun other ho => htodo other (List.mem_cons_of_mem _ ho)) (hk.mono hgrown) hinv'

end Replayer

end Provenance
