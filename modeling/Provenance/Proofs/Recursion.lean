import Provenance.Proofs.Conduct
import Provenance.Proofs.Walk

/-!
# Parents first, by recursion

What a walk does along a path can be said by recursion: the parents of a bundle are dealt with one
after another, and then the bundle itself is resolved.  `Replayer.ascend` says it like this, with the
path as an argument; it comes to an end since no bundle comes twice on a path.

* `walk_ascendEach`: what a walk does at a bundle, from any of its parents on.
* `walk_ascend`: a walk first does what the recursion does for the end of its path, and then goes on
  with the rest of the path.
* `substitute_eq_ascend`: asking what stands in for a bundle is the recursion.
-/

namespace Provenance

open Dialogue

namespace Replayer

/-! ### The recursion -/

/-- The fetched bundles that are not on a path. -/
def offPath (cache : Cache) (path : List BundleId) : List BundleId :=
  cache.ids.filter (· ∉ path)

theorem offPath_lt {cache : Cache} {path : List BundleId} {id : BundleId} {old : Bundle}
    (hid : id ∉ path) (hold : cache.get? id = some old) :
    (offPath cache (id :: path)).length < (offPath cache path).length := by
  have hmem : id ∈ cache.ids := Register.contains_iff.mp (by simp [Register.contains, hold])
  have hsub : offPath cache (id :: path) = (offPath cache path).filter (· ≠ id) := by
    rw [offPath, offPath, List.filter_filter]
    refine List.filter_congr ?_
    intro other _
    simp
  rw [hsub]
  exact List.length_filter_lt_length_iff_exists.mpr ⟨id, by simp [offPath, hmem, hid], by simp⟩

mutual

/-- What stands in for a bundle, with the state after finding out.  A bundle that is mapped or beyond
the cache is answered at once; any other is resolved when its parents are dealt with.  The path leads
from the bundle down to where the recursion started. -/
def ascend (request : Request) (cache : Cache) (path : List BundleId) (replayer : Replayer)
    (id : BundleId) (_hid : id ∉ path) :
    Dialogue (Except ReplayError (Option BundleId) × Replayer) :=
  match replayer.substitutions.get? id with
  | some new => return (.ok new, replayer)
  | none =>
    match _hold : cache.get? id with
    | none => return (.ok (some id), replayer.map id (some id))
    | some old => do
      match ← replayer.ascendEach request cache (id :: path) old.parents with
      | (.error error, replayer) => return (.error error, replayer)
      | (.ok _, replayer) =>
        match ← replayer.resolve request id old with
        | .error error => return (.error error, replayer)
        | .ok next => return (.ok ((next.substitutions.get? id).getD (some id)), next)
termination_by ((offPath cache path).length, 0)
decreasing_by exact Prod.Lex.left _ _ (offPath_lt _hid _hold)

/-- Deals with each of some parents, in their order, that is neither mapped by then nor on the path. -/
def ascendEach (request : Request) (cache : Cache) (path : List BundleId) (replayer : Replayer)
    (parents : List BundleId) : Dialogue (Except ReplayError Unit × Replayer) :=
  match parents with
  | [] => return (.ok (), replayer)
  | parent :: parents =>
    if hskip : replayer.substitutions.contains parent = true ∨ parent ∈ path then
      replayer.ascendEach request cache path parents
    else do
      match ← replayer.ascend request cache path parent (not_or.mp hskip).2 with
      | (.error error, replayer) => return (.error error, replayer)
      | (.ok _, replayer) => replayer.ascendEach request cache path parents
termination_by ((offPath cache path).length, parents.length + 1)

end

variable {request : Request} {cache : Cache} {replayer : Replayer} {path : List BundleId}
  {id parent : BundleId} {old : Bundle}

theorem ascend_of_mapped {new : Option BundleId} (hid : id ∉ path)
    (h : replayer.substitutions.get? id = some new) :
    replayer.ascend request cache path id hid = return (.ok new, replayer) := by
  rw [ascend, h]

theorem ascend_of_beyond (hid : id ∉ path) (h : replayer.substitutions.get? id = none)
    (hc : cache.get? id = none) :
    replayer.ascend request cache path id hid =
      return (.ok (some id), replayer.map id (some id)) := by
  rw [ascend, h]
  simp only
  split
  · rfl
  · rename_i old hold
    rw [hc] at hold
    cases hold

theorem ascend_of_fetched (hid : id ∉ path) (h : replayer.substitutions.get? id = none)
    (hc : cache.get? id = some old) :
    replayer.ascend request cache path id hid = (do
      match ← replayer.ascendEach request cache (id :: path) old.parents with
      | (.error error, replayer) => return (.error error, replayer)
      | (.ok _, replayer) =>
        match ← replayer.resolve request id old with
        | .error error => return (.error error, replayer)
        | .ok next => return (.ok ((next.substitutions.get? id).getD (some id)), next)) := by
  rw [ascend, h]
  simp only
  split
  · rename_i hold
    rw [hc] at hold
    cases hold
  · rename_i found hold
    rw [hc] at hold
    cases hold
    rfl

theorem ascendEach_of_skipped (parents : List BundleId)
    (h : replayer.substitutions.contains parent = true ∨ parent ∈ path) :
    replayer.ascendEach request cache path (parent :: parents) =
      replayer.ascendEach request cache path parents := by
  rw [ascendEach, dif_pos h]

theorem ascendEach_of_pending (parents : List BundleId)
    (h : ¬ (replayer.substitutions.contains parent = true ∨ parent ∈ path)) :
    replayer.ascendEach request cache path (parent :: parents) = (do
      match ← replayer.ascend request cache path parent (not_or.mp h).2 with
      | (.error error, replayer) => return (.error error, replayer)
      | (.ok _, replayer) => replayer.ascendEach request cache path parents) := by
  rw [ascendEach, dif_neg h]

/-! ### What the recursion maps -/

/-- Between two states more is mapped, but nothing that is on a path. -/
structure Mounts (replayer next : Replayer) (path : List BundleId) : Prop where
  grown : ∀ other, replayer.substitutions.contains other = true →
    next.substitutions.contains other = true
  spared : ∀ other ∈ path, next.substitutions.contains other = true →
    replayer.substitutions.contains other = true

namespace Mounts

variable {next last : Replayer}

theorem refl (replayer : Replayer) (path : List BundleId) : replayer.Mounts replayer path :=
  ⟨fun _ ho => ho, fun _ _ ho => ho⟩

theorem trans (h : replayer.Mounts next path) (h' : next.Mounts last path) :
    replayer.Mounts last path :=
  ⟨fun other ho => h'.grown other (h.grown other ho),
    fun other hp ho => h.spared other hp (h'.spared other hp ho)⟩

theorem tail (h : replayer.Mounts next (id :: path)) : replayer.Mounts next path :=
  ⟨h.grown, fun other hp ho => h.spared other (List.mem_cons_of_mem _ hp) ho⟩

theorem add {new : Option BundleId} (hid : id ∉ path)
    (hn : next.substitutions = replayer.substitutions.add id new) : replayer.Mounts next path := by
  have hiff : ∀ other, next.substitutions.contains other = true ↔
      other = id ∨ replayer.substitutions.contains other = true := by
    intro other
    rw [hn, Register.contains_add]
  refine ⟨fun other ho => (hiff other).mpr (.inr ho), ?_⟩
  intro other hp ho
  rcases (hiff other).mp ho with rfl | ho
  · exact absurd hp hid
  · exact ho

end Mounts

mutual

/-- A bundle is mapped to what the recursion answers. -/
theorem ascend_orderly (request : Request) (cache : Cache) (path : List BundleId)
    (replayer : Replayer) (id : BundleId) (hid : id ∉ path) :
    (replayer.ascend request cache path id hid).Orderly request.Admits fun result =>
      ∀ new, result.1 = .ok new →
        result.2.substitutions.get? id = some new ∧ replayer.Mounts result.2 path := by
  cases h : replayer.substitutions.get? id with
  | some new =>
      rw [ascend_of_mapped hid h]
      rintro _ ⟨⟩
      exact ⟨h, .refl replayer path⟩
  | none =>
      have hfree : ¬ replayer.substitutions.contains id = true := by simp [Register.contains, h]
      cases hc : cache.get? id with
      | none =>
          rw [ascend_of_beyond hid h hc]
          rintro _ ⟨⟩
          exact ⟨Register.get?_add_self _ hfree, .add hid rfl⟩
      | some old =>
          rw [ascend_of_fetched hid h hc]
          refine (ascendEach_orderly request cache (id :: path) replayer old.parents).andThenWith
            (fun _ _ => ⟨_, rfl, rfl, nofun⟩) fun _ next hnext => ?_
          have hresolve := (resolve_orderly next request id old).mono (fun _ ha => ha.admits)
            fun _ hp => hp
          refine hresolve.andThen (fun _ => ⟨_, rfl, rfl, nofun⟩) fun last hlast => ?_
          obtain ⟨new, hadd⟩ := hlast last rfl
          have hmapped : last.substitutions.contains id = true := by
            rw [hadd, Register.contains_add]
            exact .inl rfl
          obtain ⟨target, htarget⟩ := Option.isSome_iff_exists.mp hmapped
          rintro _ ⟨⟩
          exact ⟨by rw [htarget]; rfl, (hnext rfl).2.tail.trans (.add hid hadd)⟩
termination_by ((offPath cache path).length, 0)
decreasing_by exact Prod.Lex.left _ _ (offPath_lt hid hc)

/-- After going up to the parents, each of them is mapped or on the path. -/
theorem ascendEach_orderly (request : Request) (cache : Cache) (path : List BundleId)
    (replayer : Replayer) (parents : List BundleId) :
    (replayer.ascendEach request cache path parents).Orderly request.Admits fun result =>
      result.1 = .ok () →
        (∀ parent ∈ parents, result.2.substitutions.contains parent = true ∨ parent ∈ path) ∧
        replayer.Mounts result.2 path := by
  cases parents with
  | nil =>
      rw [ascendEach]
      exact fun _ => ⟨List.forall_mem_nil _, .refl replayer path⟩
  | cons parent parents =>
      by_cases hskip : replayer.substitutions.contains parent = true ∨ parent ∈ path
      · rw [ascendEach_of_skipped parents hskip]
        refine (ascendEach_orderly request cache path replayer parents).mono (fun _ ha => ha) ?_
        intro result hresult hok
        obtain ⟨hparents, hmounts⟩ := hresult hok
        exact ⟨List.forall_mem_cons.mpr ⟨hskip.imp_left (hmounts.grown parent), hparents⟩, hmounts⟩
      · rw [ascendEach_of_pending parents hskip]
        refine (ascend_orderly request cache path replayer parent (not_or.mp hskip).2).andThenWith
          (fun _ _ => ⟨_, rfl, rfl, nofun⟩) fun new next hnext => ?_
        obtain ⟨hget, hmounts⟩ := hnext new rfl
        have hmapped : next.substitutions.contains parent = true := by
          simp [Register.contains, hget]
        refine (ascendEach_orderly request cache path next parents).mono (fun _ ha => ha) ?_
        intro result hresult hok
        obtain ⟨hparents, hmounts'⟩ := hresult hok
        exact ⟨List.forall_mem_cons.mpr ⟨.inl (hmounts'.grown parent hmapped), hparents⟩,
          hmounts.trans hmounts'⟩
termination_by ((offPath cache path).length, parents.length + 1)

end

/-! ### Walks to the end -/

variable {bottom current : BundleId}

theorem weight_pos (cache : Cache) (bottom : BundleId) (replayer : Replayer) (current : BundleId)
    (path : List BundleId) : 0 < weight cache bottom replayer (current :: path) := by
  rw [weight, List.length_cons]
  omega

/-- Whichever move is made, less is ahead afterwards. -/
theorem weight_move (cache : Cache) (bottom : BundleId) (replayer : Replayer) (current : BundleId)
    (path : List BundleId) :
    match replayer.move cache current path with
    | .leave => weight cache bottom replayer path < weight cache bottom replayer (current :: path)
    | .enter parent => weight cache bottom replayer (parent :: current :: path) <
        weight cache bottom replayer (current :: path)
    | .keep | .resolve _ => ∀ (next : Replayer) (new : Option BundleId),
        next.substitutions = replayer.substitutions.add current new →
          weight cache bottom next path < weight cache bottom replayer (current :: path) := by
  have hadd : ∀ (next : Replayer) (new : Option BundleId),
      next.substitutions = replayer.substitutions.add current new →
        weight cache bottom next path < weight cache bottom replayer (current :: path) := by
    intro next new hn
    apply weight_leave
    intro other
    rw [hn, Register.contains_add]
  cases hmove : replayer.move cache current path with
  | leave =>
      apply weight_leave
      intro other
      have hmapped := move_eq_leave hmove
      constructor
      · exact .inr
      · rintro (rfl | ho)
        · exact hmapped
        · exact ho
  | keep => exact hadd
  | enter parent =>
      obtain ⟨_, old, hold, hparent, hfree, hpath⟩ := move_eq_enter hmove
      exact weight_enter (mem_reach bottom hold hparent) hfree hpath
  | resolve old => exact hadd

/-- Beyond the weight of a path the number of moves does not matter. -/
theorem walk_congr {moves moves' : Nat} (hw : weight cache bottom replayer path ≤ moves)
    (hw' : weight cache bottom replayer path ≤ moves') :
    replayer.walk request cache moves path = replayer.walk request cache moves' path := by
  induction moves generalizing moves' replayer path with
  | zero =>
      cases path with
      | nil => cases moves' <;> rfl
      | cons current path =>
          have hpos := weight_pos cache bottom replayer current path
          omega
  | succ moves ih =>
      cases path with
      | nil => cases moves' <;> rfl
      | cons current path =>
          cases moves' with
          | zero =>
              have hpos := weight_pos cache bottom replayer current path
              omega
          | succ moves' =>
              have hlt := weight_move cache bottom replayer current path
              rw [walk, walk]
              cases hmove : replayer.move cache current path with
              | leave =>
                  rw [hmove] at hlt
                  exact ih (by omega) (by omega)
              | keep =>
                  rw [hmove] at hlt
                  have hnext := hlt (replayer.map current (some current)) _ rfl
                  exact ih (by omega) (by omega)
              | enter parent =>
                  rw [hmove] at hlt
                  exact ih (by omega) (by omega)
              | resolve old =>
                  rw [hmove] at hlt
                  refine (resolve_orderly replayer request current old).bind_congr ?_
                  rintro (error | next) hpost
                  · rfl
                  · obtain ⟨new, hadd⟩ := hpost next rfl
                    have hnext := hlt next new hadd
                    exact ih (by omega) (by omega)

/-- Makes as many moves as it takes to the end of a walk that started at the bottom of the path. -/
def walkHome (request : Request) (cache : Cache) (bottom : BundleId) (replayer : Replayer)
    (path : List BundleId) : Dialogue (Except ReplayError (List BundleId) × Replayer) :=
  replayer.walk request cache (weight cache bottom replayer path) path

theorem walk_eq_walkHome {moves : Nat} (hw : weight cache bottom replayer path ≤ moves) :
    replayer.walk request cache moves path = replayer.walkHome request cache bottom path :=
  walk_congr hw (Nat.le_refl _)

theorem walkHome_nil : replayer.walkHome request cache bottom [] = return (.ok [], replayer) := by
  rw [walkHome]
  cases weight cache bottom replayer [] <;> rfl

theorem walkHome_cons : replayer.walkHome request cache bottom (current :: path) = (
    match replayer.move cache current path with
    | .leave => replayer.walkHome request cache bottom path
    | .keep => (replayer.map current (some current)).walkHome request cache bottom path
    | .enter parent => replayer.walkHome request cache bottom (parent :: current :: path)
    | .resolve old => do
      match ← replayer.resolve request current old with
      | .error error => return (.error error, replayer)
      | .ok next => next.walkHome request cache bottom path) := by
  have hlt := weight_move cache bottom replayer current path
  rw [← walk_eq_walkHome (Nat.le_succ _), walk]
  cases hmove : replayer.move cache current path with
  | leave =>
      rw [hmove] at hlt
      exact walk_eq_walkHome hlt.le
  | keep =>
      rw [hmove] at hlt
      exact walk_eq_walkHome (hlt _ _ rfl).le
  | enter parent =>
      rw [hmove] at hlt
      exact walk_eq_walkHome hlt.le
  | resolve old =>
      rw [hmove] at hlt
      refine (resolve_orderly replayer request current old).bind_congr ?_
      rintro (error | next) hpost
      · rfl
      · obtain ⟨new, hadd⟩ := hpost next rfl
        exact walk_eq_walkHome (hlt next new hadd).le

theorem move_of_contains (hc : replayer.substitutions.contains current = true) :
    replayer.move cache current path = .leave := by
  rw [move, if_pos hc]

theorem move_of_beyond (hc : ¬ replayer.substitutions.contains current = true)
    (hn : cache.get? current = none) : replayer.move cache current path = .keep := by
  rw [move, if_neg hc, hn]

theorem move_of_fetched (hc : ¬ replayer.substitutions.contains current = true)
    (ho : cache.get? current = some old) :
    replayer.move cache current path =
      match replayer.pending? (current :: path) old with
      | some parent => .enter parent
      | none => .resolve old := by
  cases hp : replayer.pending? (current :: path) old <;> simp [move, hc, ho, hp]

theorem pending?_eq_none
    (h : ∀ parent ∈ old.parents, replayer.substitutions.contains parent = true ∨ parent ∈ path) :
    replayer.pending? path old = none := by
  refine List.find?_eq_none.mpr ?_
  intro parent hparent hfound
  obtain ⟨hfree, hoff⟩ := of_decide_eq_true hfound
  exact (h parent hparent).elim hfree hoff

theorem pending?_eq_some {done parents : List BundleId}
    (hsplit : old.parents = done ++ parent :: parents)
    (hdone : ∀ parent ∈ done, replayer.substitutions.contains parent = true ∨ parent ∈ path)
    (hparent : ¬ (replayer.substitutions.contains parent = true ∨ parent ∈ path)) :
    replayer.pending? path old = some parent := by
  refine List.find?_eq_some_iff_append.mpr
    ⟨decide_eq_true (not_or.mp hparent), done, parents, hsplit, ?_⟩
  intro other hother
  rw [Bool.not_eq_true', decide_eq_false_iff_not, not_and_or, not_not, not_not]
  exact hdone other hother

/-! ### A walk is the recursion -/

mutual

/-- A walk first does what the recursion does for the end of its path, and then goes on. -/
theorem walk_ascend (request : Request) (cache : Cache) (bottom : BundleId) (path : List BundleId)
    (replayer : Replayer) (id : BundleId) (hid : id ∉ path) :
    replayer.walkHome request cache bottom (id :: path) = (do
      match ← replayer.ascend request cache path id hid with
      | (.error error, next) => return (.error error, next)
      | (.ok _, next) => next.walkHome request cache bottom path) := by
  rw [walkHome_cons]
  cases h : replayer.substitutions.get? id with
  | some new =>
      rw [ascend_of_mapped hid h, move_of_contains (by simp [Register.contains, h])]
      rfl
  | none =>
      have hfree : ¬ replayer.substitutions.contains id = true := by simp [Register.contains, h]
      cases hc : cache.get? id with
      | none =>
          rw [ascend_of_beyond hid h hc, move_of_beyond hfree hc]
          rfl
      | some old =>
          rw [← walkHome_cons, ascend_of_fetched hid h hc, bind_assoc,
            walk_ascendEach request cache bottom path replayer id [] old.parents old hfree hc rfl
              (List.forall_mem_nil _)]
          congr 1
          funext outcome
          obtain ⟨error | _, next⟩ := outcome
          · rfl
          · simp only [bind_assoc]
            congr 1
            funext outcome
            cases outcome <;> rfl
termination_by ((offPath cache path).length, 0)
decreasing_by exact Prod.Lex.left _ _ (offPath_lt hid hc)

/-- What a walk does at a bundle, from any of its parents on: those before are mapped or on the path. -/
theorem walk_ascendEach (request : Request) (cache : Cache) (bottom : BundleId)
    (path : List BundleId) (replayer : Replayer) (current : BundleId) (done parents : List BundleId)
    (old : Bundle) (hc : ¬ replayer.substitutions.contains current = true)
    (ho : cache.get? current = some old) (hsplit : old.parents = done ++ parents)
    (hdone : ∀ parent ∈ done, replayer.substitutions.contains parent = true ∨
      parent ∈ current :: path) :
    replayer.walkHome request cache bottom (current :: path) = (do
      match ← replayer.ascendEach request cache (current :: path) parents with
      | (.error error, next) => return (.error error, next)
      | (.ok _, next) =>
        match ← next.resolve request current old with
        | .error error => return (.error error, next)
        | .ok last => last.walkHome request cache bottom path) := by
  cases parents with
  | nil =>
      have hpending : replayer.pending? (current :: path) old = none := by
        apply pending?_eq_none
        rw [hsplit, List.append_nil]
        exact hdone
      rw [walkHome_cons, move_of_fetched hc ho, hpending, ascendEach]
      rfl
  | cons parent parents =>
      by_cases hskip : replayer.substitutions.contains parent = true ∨ parent ∈ current :: path
      · rw [ascendEach_of_skipped parents hskip]
        refine walk_ascendEach request cache bottom path replayer current (done ++ [parent]) parents
          old hc ho ?_ ?_
        · rw [hsplit, List.append_assoc]
          rfl
        · rw [List.forall_mem_append]
          exact ⟨hdone, List.forall_mem_singleton.mpr hskip⟩
      · have hpending : replayer.pending? (current :: path) old = some parent :=
          pending?_eq_some hsplit hdone hskip
        rw [ascendEach_of_pending parents hskip, walkHome_cons, move_of_fetched hc ho, hpending,
          bind_assoc]
        simp only
        rw [walk_ascend request cache bottom (current :: path) replayer parent (not_or.mp hskip).2]
        refine (ascend_orderly request cache (current :: path) replayer parent
          (not_or.mp hskip).2).bind_congr ?_
        rintro ⟨error | new, next⟩ hpost
        · rfl
        · obtain ⟨hget, hmounts⟩ := hpost new rfl
          refine walk_ascendEach request cache bottom path next current (done ++ [parent]) parents
            old (fun hn => hc (hmounts.spared current List.mem_cons_self hn)) ho ?_ ?_
          · rw [hsplit, List.append_assoc]
            rfl
          · rw [List.forall_mem_append]
            refine ⟨fun other hother => (hdone other hother).imp_left (hmounts.grown other), ?_⟩
            exact List.forall_mem_singleton.mpr (.inl (by simp [Register.contains, hget]))
termination_by ((offPath cache (current :: path)).length, parents.length + 1)

end

/-- **Walking is the recursion**: whatever the graph and the state, and however the store answers,
asking what stands in for a bundle makes the calls that the recursion makes, and ends with the same
result in the same state. -/
theorem substitute_eq_ascend (request : Request) (cache : Cache) (replayer : Replayer)
    (id : BundleId) :
    replayer.substitute request cache id =
      replayer.ascend request cache [] id List.not_mem_nil := by
  unfold substitute
  cases h : replayer.substitutions.get? id with
  | some new => rw [ascend_of_mapped _ h]
  | none =>
      simp only
      rw [walk_eq_walkHome (weight_le id), walk_ascend request cache id [] replayer id
        List.not_mem_nil, bind_assoc]
      conv_rhs => rw [← bind_pure (replayer.ascend request cache [] id List.not_mem_nil)]
      refine (ascend_orderly request cache [] replayer id List.not_mem_nil).bind_congr ?_
      rintro ⟨error | new, next⟩ hpost
      · rfl
      · simp only [walkHome_nil]
        have hget : next.substitutions.get? id = some new := (hpost new rfl).1
        simp [hget]

end Replayer

end Provenance
