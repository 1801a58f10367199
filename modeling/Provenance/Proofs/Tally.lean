import Mathlib.Data.Finset.Card
import Provenance.Proofs.Conduct
import Provenance.Proofs.Walk

/-!
# How many moves a walk makes

A `Tally` counts the moves of a walk: which bundles it has put on its path, which it has resolved, and
how many moves it has made.  `walkTallied` and `substituteTallied` are a walk and a whole call with
their tallies; without these they are the walk and the call (`walkTallied_val`,
`substituteTallied_val`).

A bundle that is put on the path was not mapped and not on it, and it leaves the path only when it is
mapped: `Tallied` says what this means for a walk that has made some moves, whatever the store has
answered.  So no bundle is put on the path twice, and there are at most two moves for each.

Main statement: `substitute_terminates`.
-/

namespace Provenance

open Dialogue

namespace Replayer

/-! ### Counting moves -/

/-- What a walk has done. -/
structure Tally where
  /-- The bundles that were put on the path, the first one first. -/
  pushed : List BundleId
  /-- The bundles that were resolved, also when this failed. -/
  resolved : List BundleId
  /-- The number of moves. -/
  moves : Nat
deriving DecidableEq

namespace Tally

/-- Nothing was done. -/
def zero : Tally :=
  ⟨[], [], 0⟩

/-- A bundle was put on the path first. -/
def push (tally : Tally) (id : BundleId) : Tally :=
  { tally with pushed := id :: tally.pushed }

/-- One more move was made first, at some bundle. -/
def count (tally : Tally) (current : BundleId) : Move → Tally
  | .leave | .keep => { tally with moves := tally.moves + 1 }
  | .enter parent => { tally.push parent with moves := tally.moves + 1 }
  | .resolve _ => { tally with resolved := current :: tally.resolved, moves := tally.moves + 1 }

end Tally

/-- A walk with its tally. -/
def walkTallied (request : Request) (cache : Cache) (replayer : Replayer) :
    (moves : Nat) → (path : List BundleId) →
      Dialogue ((Except ReplayError (List BundleId) × Replayer) × Tally)
  | _, [] => return ((.ok [], replayer), .zero)
  | 0, current :: path => return ((.ok (current :: path), replayer), .zero)
  | moves + 1, current :: path =>
    let move := replayer.move cache current path
    (fun tallied => (tallied.1, tallied.2.count current move)) <$>
      match move with
      | .leave => replayer.walkTallied request cache moves path
      | .keep => (replayer.map current (some current)).walkTallied request cache moves path
      | .enter parent => replayer.walkTallied request cache moves (parent :: current :: path)
      | .resolve old => do
        match ← replayer.resolve request current old with
        | .error error => return ((.error error, replayer), .zero)
        | .ok next => next.walkTallied request cache moves path

/-- Asking for a bundle, with the tally of the walk; the first result is what is left of the path. -/
def substituteTallied (request : Request) (cache : Cache) (replayer : Replayer) (id : BundleId) :
    Dialogue ((Except ReplayError (List BundleId) × Replayer) × Tally) :=
  if replayer.substitutions.contains id then return ((.ok [], replayer), .zero)
  else
    (fun tallied => (tallied.1, tallied.2.push id)) <$>
      replayer.walkTallied request cache (2 * (reach cache id).length) [id]

/-- What is answered when a walk for a bundle has ended. -/
def answer (id : BundleId) (result : Except ReplayError (List BundleId) × Replayer) :
    Except ReplayError (Option BundleId) × Replayer :=
  (result.1.map fun _ => (result.2.substitutions.get? id).getD (some id), result.2)

variable {request : Request} {cache : Cache} {replayer next : Replayer} {path : List BundleId}
  {id current parent : BundleId} {old : Bundle}

/-- Without the tally it is a walk. -/
theorem walkTallied_val (request : Request) (cache : Cache) (replayer : Replayer) (moves : Nat)
    (path : List BundleId) :
    Prod.fst <$> replayer.walkTallied request cache moves path =
      replayer.walk request cache moves path := by
  induction moves generalizing replayer path with
  | zero => cases path <;> rfl
  | succ moves ih =>
      cases path with
      | nil => rfl
      | cons current path =>
          rw [walkTallied, walk, Functor.map_map]
          cases replayer.move cache current path with
          | leave => exact ih replayer path
          | keep => exact ih _ path
          | enter parent => exact ih replayer _
          | resolve old =>
              simp only [map_bind]
              congr 1
              funext outcome
              cases outcome with
              | error error => rfl
              | ok next => exact ih next path

theorem substituteTallied_val (request : Request) (cache : Cache) (replayer : Replayer)
    (id : BundleId) :
    (fun tallied => answer id tallied.1) <$> replayer.substituteTallied request cache id =
      replayer.substitute request cache id := by
  unfold substituteTallied substitute
  cases h : replayer.substitutions.get? id with
  | some new => simp [Register.contains, h, answer, Except.map]
  | none =>
      have hfree : ¬ replayer.substitutions.contains id = true := by simp [Register.contains, h]
      simp only [if_neg hfree]
      rw [Functor.map_map, ← walkTallied_val, bind_map_left, ← bind_pure_comp]
      congr 1
      funext tallied
      obtain ⟨⟨error | rest, last⟩, tally⟩ := tallied <;> rfl

/-! ### What the moves of a walk have done -/

/-- What is left of the path; nothing is when the walk has failed. -/
def left (outcome : Except ReplayError (List BundleId)) : List BundleId :=
  outcome.toOption.getD []

/-- What a walk from a state along a path has done with at most so many moves. -/
structure Tallied (cache : Cache) (replayer : Replayer) (path : List BundleId) (moves : Nat)
    (outcome : Except ReplayError (List BundleId)) (last : Replayer) (tally : Tally) : Prop where
  pushed_nodup : tally.pushed.Nodup
  pushed_fresh : ∀ other ∈ tally.pushed, other ∈ cache.parents ∧
    ¬ replayer.substitutions.contains other = true ∧ other ∉ path
  resolved_nodup : tally.resolved.Nodup
  resolved_fresh : ∀ other ∈ tally.resolved, cache.contains other = true ∧
    ¬ replayer.substitutions.contains other = true
  /-- Each move puts a bundle on the path, or takes one off. -/
  bounded : tally.moves + (left outcome).length ≤ path.length + 2 * tally.pushed.length
  /-- Only for a lack of moves anything of the path is left. -/
  exhausted : left outcome ≠ [] → tally.moves = moves
  grown : ∀ other, replayer.substitutions.contains other = true →
    last.substitutions.contains other = true
  /-- What was put on the path is left on it or mapped. -/
  mapped : ∀ rest, outcome = .ok rest → ∀ other, other ∈ path ∨ other ∈ tally.pushed →
    other ∈ rest ∨ last.substitutions.contains other = true

namespace Tallied

variable {moves : Nat} {outcome : Except ReplayError (List BundleId)} {last : Replayer}
  {tally : Tally}

theorem zero (cache : Cache) (replayer : Replayer) (h : path ≠ [] → moves = 0) :
    Tallied cache replayer path moves (.ok path) replayer .zero where
  pushed_nodup := List.nodup_nil
  pushed_fresh := List.forall_mem_nil _
  resolved_nodup := List.nodup_nil
  resolved_fresh := List.forall_mem_nil _
  bounded := by simp [Tally.zero, left, Except.toOption]
  exhausted hleft := (h hleft).symm
  grown _ ho := ho
  mapped := by
    rintro _ ⟨⟩ other (ho | ho)
    · exact .inl ho
    · cases ho

theorem takeOff (h : Tallied cache next path moves outcome last tally)
    (hn : ∀ other, next.substitutions.contains other = true ↔
      other = current ∨ replayer.substitutions.contains other = true) :
    Tallied cache replayer (current :: path) (moves + 1) outcome last
      { tally with moves := tally.moves + 1 } where
  pushed_nodup := h.pushed_nodup
  pushed_fresh other ho := by
    obtain ⟨hparent, hfree, hpath⟩ := h.pushed_fresh other ho
    rw [hn, not_or] at hfree
    exact ⟨hparent, hfree.2, List.not_mem_cons_of_ne_of_not_mem hfree.1 hpath⟩
  resolved_nodup := h.resolved_nodup
  resolved_fresh other ho := by
    obtain ⟨hc, hfree⟩ := h.resolved_fresh other ho
    rw [hn, not_or] at hfree
    exact ⟨hc, hfree.2⟩
  bounded := by
    have := h.bounded
    simp only [List.length_cons]
    omega
  exhausted hleft := congrArg (· + 1) (h.exhausted hleft)
  grown other ho := h.grown other ((hn other).mpr (.inr ho))
  mapped rest hrest other ho := by
    rcases ho with ho | ho
    · rcases List.mem_cons.mp ho with rfl | ho
      · exact .inr (h.grown other ((hn other).mpr (.inl rfl)))
      · exact h.mapped rest hrest other (.inl ho)
    · exact h.mapped rest hrest other (.inr ho)

theorem enter (h : Tallied cache replayer (parent :: current :: path) moves outcome last tally)
    (hp : parent ∈ cache.parents) (hc : ¬ replayer.substitutions.contains parent = true)
    (hpath : parent ∉ current :: path) :
    Tallied cache replayer (current :: path) (moves + 1) outcome last
      (tally.count current (.enter parent)) where
  pushed_nodup := by
    refine List.nodup_cons.mpr ⟨fun hmem => ?_, h.pushed_nodup⟩
    exact (h.pushed_fresh parent hmem).2.2 List.mem_cons_self
  pushed_fresh := by
    refine List.forall_mem_cons.mpr ⟨⟨hp, hc, hpath⟩, fun other ho => ?_⟩
    obtain ⟨hparent, hfree, hoff⟩ := h.pushed_fresh other ho
    exact ⟨hparent, hfree, fun hmem => hoff (List.mem_cons_of_mem _ hmem)⟩
  resolved_nodup := h.resolved_nodup
  resolved_fresh := h.resolved_fresh
  bounded := by
    have := h.bounded
    simp only [Tally.count, Tally.push, List.length_cons] at this ⊢
    omega
  exhausted hleft := congrArg (· + 1) (h.exhausted hleft)
  grown := h.grown
  mapped rest hrest other ho := by
    refine h.mapped rest hrest other ?_
    rcases ho with ho | ho
    · exact .inl (List.mem_cons_of_mem _ ho)
    · rcases List.mem_cons.mp ho with rfl | ho
      · exact .inl List.mem_cons_self
      · exact .inr ho

theorem resolve {new : Option BundleId} (h : Tallied cache next path moves outcome last tally)
    (hc : ¬ replayer.substitutions.contains current = true) (ho : cache.get? current = some old)
    (hn : next.substitutions = replayer.substitutions.add current new) :
    Tallied cache replayer (current :: path) (moves + 1) outcome last
      (tally.count current (.resolve old)) := by
  have hadd : ∀ other, next.substitutions.contains other = true ↔
      other = current ∨ replayer.substitutions.contains other = true := by
    intro other
    rw [hn, Register.contains_add]
  have hoff := h.takeOff hadd
  have hfetched : cache.contains current = true := by simp [Register.contains, ho]
  refine { hoff with resolved_nodup := ?_, resolved_fresh := ?_ }
  · refine List.nodup_cons.mpr ⟨fun hmem => ?_, h.resolved_nodup⟩
    exact (h.resolved_fresh current hmem).2 ((hadd current).mpr (.inl rfl))
  · exact List.forall_mem_cons.mpr ⟨⟨hfetched, hc⟩, hoff.resolved_fresh⟩

theorem fail (hc : ¬ replayer.substitutions.contains current = true)
    (ho : cache.get? current = some old) (error : ReplayError) :
    Tallied cache replayer (current :: path) (moves + 1) (.error error) replayer
      (Tally.zero.count current (.resolve old)) where
  pushed_nodup := List.nodup_nil
  pushed_fresh := List.forall_mem_nil _
  resolved_nodup := List.nodup_singleton current
  resolved_fresh := List.forall_mem_singleton.mpr ⟨by simp [Register.contains, ho], hc⟩
  bounded := by simp [Tally.count, Tally.zero, left, Except.toOption]
  exhausted hleft := absurd rfl hleft
  grown _ hother := hother
  mapped := by
    rintro _ ⟨⟩

theorem ends (h : Tallied cache replayer [id] (2 * (reach cache id).length) outcome last tally) :
    (id :: tally.pushed).Nodup ∧ tally.moves ≤ 2 * (reach cache id).toFinset.card ∧
      left outcome = [] := by
  have hnodup : (id :: tally.pushed).Nodup := by
    refine List.nodup_cons.mpr ⟨fun hmem => ?_, h.pushed_nodup⟩
    exact (h.pushed_fresh id hmem).2.2 List.mem_cons_self
  have hsub : (id :: tally.pushed).toFinset ⊆ (reach cache id).toFinset := by
    intro other ho
    rw [List.mem_toFinset] at ho ⊢
    rcases List.mem_cons.mp ho with rfl | ho
    · exact List.mem_cons_self
    · exact List.mem_cons_of_mem _ (h.pushed_fresh other ho).1
  have hcard := Finset.card_le_card hsub
  rw [List.toFinset_card_of_nodup hnodup, List.length_cons] at hcard
  have hreach := List.toFinset_card_le (reach cache id)
  have hbounded := h.bounded
  rw [List.length_singleton] at hbounded
  refine ⟨hnodup, by omega, ?_⟩
  by_contra hleft
  have hmoves := h.exhausted hleft
  omega

end Tallied

/-- **What a walk has done with its moves**, whatever the store has answered. -/
theorem walkTallied_tallied {σ : Type} (handler : Handler σ) (request : Request) (cache : Cache)
    (replayer : Replayer) (moves : Nat) (path : List BundleId) (state : σ) :
    let tallied := ((replayer.walkTallied request cache moves path).run handler state).1
    Tallied cache replayer path moves tallied.1.1 tallied.1.2 tallied.2 := by
  induction moves generalizing replayer path state with
  | zero => cases path <;> exact .zero cache replayer fun _ => rfl
  | succ moves ih =>
      cases path with
      | nil => exact .zero cache replayer fun hn => absurd rfl hn
      | cons current path =>
          rw [walkTallied]
          cases hmove : replayer.move cache current path with
          | leave =>
              have hmapped := move_eq_leave hmove
              simp only [run_map]
              refine (ih replayer path state).takeOff fun other => ⟨.inr, ?_⟩
              rintro (rfl | ho)
              · exact hmapped
              · exact ho
          | keep =>
              simp only [run_map]
              refine (ih (replayer.map current (some current)) path state).takeOff fun other => ?_
              rw [map_substitutions, Register.contains_add]
          | enter parent =>
              obtain ⟨_, old, hold, hparent, hfree, hpath⟩ := move_eq_enter hmove
              have hp : parent ∈ cache.parents :=
                List.mem_flatMap.mpr ⟨(current, old), Register.mem_of_get? hold, hparent⟩
              simp only [run_map]
              exact (ih replayer (parent :: current :: path) state).enter hp hfree hpath
          | resolve old =>
              obtain ⟨hfree, hold, _⟩ := move_eq_resolve hmove
              have hadd := (resolve_orderly replayer request current old).run_result handler state
              simp only [run_map, run_bind]
              cases houtcome : ((replayer.resolve request current old).run handler state).1 with
              | error error => exact .fail hfree hold error
              | ok next =>
                  obtain ⟨new, hnext⟩ := hadd next houtcome
                  exact (ih next path _).resolve hfree hold hnext

/-- **Asking for a bundle comes to an end** on every graph, in every state and whatever the store
answers: no bundle is put on the path twice, none is resolved twice, and there are at most two moves
for each id that can be reached.  Unless resolving a bundle fails nothing is left of the path, and
everything that was on it is mapped. -/
theorem substitute_terminates {σ : Type} (handler : Handler σ) (request : Request) (cache : Cache)
    (replayer : Replayer) (id : BundleId) (state : σ) :
    ∃ outcome last tally after,
      (replayer.substituteTallied request cache id).run handler state =
        (((outcome, last), tally), after) ∧
      (replayer.substitute request cache id).run handler state =
        (answer id (outcome, last), after) ∧
      tally.pushed.Nodup ∧
      tally.resolved.Nodup ∧ (∀ other ∈ tally.resolved, cache.contains other = true) ∧
      tally.moves ≤ 2 * (reach cache id).toFinset.card ∧
      ∀ rest, outcome = .ok rest → rest = [] ∧ last.substitutions.contains id = true ∧
        ∀ other ∈ tally.pushed, last.substitutions.contains other = true := by
  obtain ⟨⟨⟨outcome, last⟩, tally⟩, after, hrun⟩ : ∃ tallied after,
      (replayer.substituteTallied request cache id).run handler state = (tallied, after) :=
    ⟨_, _, rfl⟩
  refine ⟨outcome, last, tally, after, hrun, ?_, ?_⟩
  · rw [← substituteTallied_val, run_map, hrun]
  · unfold substituteTallied at hrun
    split at hrun
    · rename_i hmapped
      cases hrun
      refine ⟨List.nodup_nil, List.nodup_nil, List.forall_mem_nil _, Nat.zero_le _, ?_⟩
      rintro _ ⟨⟩
      exact ⟨rfl, hmapped, List.forall_mem_nil _⟩
    · have h := walkTallied_tallied handler request cache replayer (2 * (reach cache id).length) [id]
        state
      rw [run_map] at hrun
      generalize (replayer.walkTallied request cache _ [id]).run handler state = walked at h hrun
      obtain ⟨⟨⟨_, _⟩, _⟩, _⟩ := walked
      cases hrun
      obtain ⟨hnodup, hmoves, hleft⟩ := h.ends
      refine ⟨hnodup, h.resolved_nodup, fun other ho => (h.resolved_fresh other ho).1, hmoves, ?_⟩
      intro rest hrest
      obtain rfl : rest = [] := by
        rw [hrest] at hleft
        exact hleft
      have hmapped := h.mapped [] hrest
      have hid := (hmapped id (.inl List.mem_cons_self)).resolve_left List.not_mem_nil
      refine ⟨rfl, hid, List.forall_mem_cons.mpr ⟨hid, fun other ho => ?_⟩⟩
      exact (hmapped other (.inr ho)).resolve_left List.not_mem_nil

end Replayer

end Provenance
