import Provenance.Store.Call

/-!
# A store in memory

`Contents` is what a store keeps: bundles in the order of their creation, and worksheets.  `Store`
adds what it takes to watch a store at work: how often each operation was called, the failures that
are queued for the next calls, and what was created.

Every operation is a function on stores.  A reading operation only looks at the contents; a writing
one gives the next store, or a failure and no store at all, so a failed operation changes nothing.
New ids come from a supply, a function from how many ids were given out before to the next one.
-/

namespace Provenance

/-- What a store keeps. -/
structure Contents where
  /-- The owner of the bundles that are created. -/
  ownerId : Option String
  /-- The bundles, the oldest first. -/
  bundles : List Bundle
  worksheets : List Worksheet
deriving DecidableEq

namespace Contents

/-- Nothing. -/
def empty : Contents :=
  ⟨none, [], []⟩

/-! ### Looking things up -/

/-- The bundle under an id. -/
def bundle? (contents : Contents) (id : BundleId) : Option Bundle :=
  contents.bundles.find? fun bundle => bundle.id = some id

/-- The worksheet under an id. -/
def worksheet? (contents : Contents) (id : WorksheetId) : Option Worksheet :=
  contents.worksheets.find? fun worksheet => worksheet.id = id

/-- The bundle that a spec stands for: the one under this id, or else the latest of this name. -/
def resolve? (contents : Contents) (spec : String) : Option Bundle :=
  match contents.bundle? spec with
  | some bundle => some bundle
  | none => (contents.bundles.filter fun bundle => bundle.name = spec).getLast?

/-- The bundles that specs stand for, each once; `seen` holds the ids found already.  A bundle
without id is passed over. -/
def resolveAll (contents : Contents) (seen : List BundleId) :
    List String → Except StoreError (List Bundle)
  | [] => .ok []
  | spec :: specs =>
    match contents.resolve? spec with
    | none => .error (.noMatch spec)
    | some bundle =>
      match bundle.id with
      | none => contents.resolveAll seen specs
      | some id =>
        if id ∈ seen then contents.resolveAll seen specs
        else (contents.resolveAll (id :: seen) specs).map (bundle :: ·)

/-- The children of a generation among some bundles, in their order, each id once and none of the
ids in `seen`. -/
def children (generation seen : List BundleId) : List Bundle → List Bundle
  | [] => []
  | bundle :: bundles =>
    match bundle.id with
    | none => children generation seen bundles
    | some id =>
      if id ∈ seen ∨ ¬ bundle.parents.any (· ∈ generation) then
        children generation seen bundles
      else bundle :: children generation (id :: seen) bundles

/-- The descendants of a generation down to a number of levels, level by level. -/
def descendants (contents : Contents) : Nat → List BundleId → List BundleId → List Bundle
  | 0, _, _ => []
  | depth + 1, generation, seen =>
    let level := children generation seen contents.bundles
    match level.filterMap Bundle.id with
    | [] => []
    | ids => level ++ contents.descendants depth ids (ids ++ seen)

/-- The bundles that specs stand for, followed by their descendants. -/
def fetchBundles (contents : Contents) (specs : List String) (depth : Option Nat) :
    Except StoreError (List Bundle) :=
  (contents.resolveAll [] specs).map fun found =>
    let ids := found.filterMap Bundle.id
    (found ++ contents.descendants (depth.getD 0) ids ids).map Bundle.explained

/-- The bundle under an id, with its state explained. -/
def fetchBundle (contents : Contents) (id : BundleId) : Except StoreError Bundle :=
  match contents.bundle? id with
  | some bundle => .ok bundle.explained
  | none => .error (.noBundle id)

/-- The worksheets that have an item for a bundle. -/
def fetchWorksheetsByBundle (contents : Contents) (id : BundleId) : List WorksheetSummary :=
  (contents.worksheets.filter fun worksheet => worksheet.containsBundle id).map Worksheet.summary

/-- The worksheet under an id. -/
def fetchWorksheet (contents : Contents) (id : WorksheetId) : Except StoreError Worksheet :=
  match contents.worksheet? id with
  | some worksheet => .ok worksheet
  | none => .error (.noWorksheet id)

/-- Dependency keys in order. -/
def sortedKeys (keys : List DependencyKey) : List DependencyKey :=
  keys.mergeSort DependencyKey.le

/-- The bundles that have a command and a list of dependency keys, in whatever order. -/
def searchBundles (contents : Contents) (command : Option String) (keys : List DependencyKey) :
    List Bundle :=
  let wanted := sortedKeys keys
  (contents.bundles.filter fun bundle =>
    bundle.command = command ∧ sortedKeys bundle.keys = wanted).map Bundle.explained

/-! ### Changes -/

/-- Puts a bundle behind all others. -/
def addBundle (contents : Contents) (bundle : Bundle) : Contents :=
  { contents with bundles := contents.bundles ++ [bundle] }

/-- Changes the first bundle under an id. -/
def modifyBundle (id : BundleId) (change : Bundle → Bundle) : List Bundle → List Bundle
  | [] => []
  | bundle :: bundles =>
    if bundle.id = some id then change bundle :: bundles
    else bundle :: modifyBundle id change bundles

/-- Changes the first worksheet under an id. -/
def modifyWorksheet (id : WorksheetId) (change : Worksheet → Worksheet) :
    List Worksheet → List Worksheet
  | [] => []
  | worksheet :: worksheets =>
    if worksheet.id = id then change worksheet :: worksheets
    else worksheet :: modifyWorksheet id change worksheets

/-- Puts an item at the end of a worksheet. -/
def addItem (contents : Contents) (item : WorksheetItem) (id : WorksheetId) : Contents :=
  { contents with worksheets := modifyWorksheet id (·.append item) contents.worksheets }

/-- Puts a new bundle where a placement says; if no worksheet has an item for the bundle to shadow,
it goes to the end of the target. -/
def placeNew (contents : Contents) (new : BundleId) (target : WorksheetId) :
    CreatePlacement → Contents
  | .detached => contents
  | .shadow old =>
    if contents.worksheets.any fun worksheet => worksheet.containsBundle old then
      { contents with
        worksheets := contents.worksheets.map fun worksheet => worksheet.shadow old new }
    else contents.addItem (.bundle new) target

end Contents

/-- How often each operation was called. -/
structure CallCounts where
  fetchBundles : Nat
  fetchBundle : Nat
  fetchWorksheetsByBundle : Nat
  fetchWorksheet : Nat
  createBundle : Nat
  createWorksheetItem : Nat
  searchBundles : Nat
deriving DecidableEq

namespace CallCounts

/-- No calls. -/
def zero : CallCounts :=
  ⟨0, 0, 0, 0, 0, 0, 0⟩

/-- One more call of an operation. -/
def bump (counts : CallCounts) : Operation → CallCounts
  | .fetchBundles => { counts with fetchBundles := counts.fetchBundles + 1 }
  | .fetchBundle => { counts with fetchBundle := counts.fetchBundle + 1 }
  | .fetchWorksheetsByBundle =>
    { counts with fetchWorksheetsByBundle := counts.fetchWorksheetsByBundle + 1 }
  | .fetchWorksheet => { counts with fetchWorksheet := counts.fetchWorksheet + 1 }
  | .createBundle => { counts with createBundle := counts.createBundle + 1 }
  | .createWorksheetItem => { counts with createWorksheetItem := counts.createWorksheetItem + 1 }
  | .searchBundles => { counts with searchBundles := counts.searchBundles + 1 }

/-- The calls that write. -/
def mutations (counts : CallCounts) : Nat :=
  counts.createBundle + counts.createWorksheetItem

end CallCounts

/-- A store and what was seen of it. -/
structure Store where
  contents : Contents
  counts : CallCounts
  /-- The failures of the next calls, one each. -/
  failures : List StoreError
  /-- The ids of the bundles that were created. -/
  createdBundles : List BundleId
  /-- The items that were created, each with its worksheet. -/
  createdItems : List (WorksheetId × WorksheetItem)
  /-- How many ids were given out. -/
  allocated : Nat
deriving DecidableEq

/-- Gives out ids: the argument is how many were given out before. -/
abbrev IdSupply : Type :=
  Nat → BundleId

namespace Store

/-- A store that was not called yet. -/
def ofContents (contents : Contents) : Store :=
  ⟨contents, .zero, [], [], [], 0⟩

/-! ### Preparing and watching a store -/

/-- Stores a bundle as it is, under its own id or else under a new one; the second result is the
id. -/
def insertBundle (supply : IdSupply) (store : Store) (bundle : Bundle) : Store × BundleId :=
  match bundle.id with
  | some id => ({ store with contents := store.contents.addBundle (bundle.withId id) }, id)
  | none =>
    let id := supply store.allocated
    ({ store with
        contents := store.contents.addBundle (bundle.withId id)
        allocated := store.allocated + 1 }, id)

/-- Stores a worksheet as it is. -/
def insertWorksheet (store : Store) (worksheet : Worksheet) : Store :=
  { store with
    contents :=
      { store.contents with worksheets := store.contents.worksheets ++ [worksheet] } }

/-- Freezes a bundle that came to rest and is not frozen yet. -/
def freeze (store : Store) (id : BundleId) (now : Timestamp) : Except StoreError Store :=
  match store.contents.bundle? id with
  | none => .error (.noBundle id)
  | some bundle =>
    match bundle.checkNotFrozen with
    | .error refusal => .error (.ofGuard refusal)
    | .ok () =>
      match bundle.checkFreezable with
      | .error refusal => .error (.ofGuard refusal)
      | .ok () =>
        .ok { store with
          contents :=
            { store.contents with
              bundles := Contents.modifyBundle id (fun bundle => { bundle with frozen := some now })
                store.contents.bundles } }

/-- Lets the next calls fail. -/
def failNext (store : Store) (count : Nat) (error : StoreError) : Store :=
  { store with failures := store.failures ++ List.replicate count error }

/-- Forgets what was called and created. -/
def resetCaptures (store : Store) : Store :=
  { store with counts := .zero, createdBundles := [], createdItems := [] }

/-! ### Answering calls -/

/-- Creates a bundle from a description.  Whatever the description says about owner, state, contents
and freezing does not count. -/
def createBundle (supply : IdSupply) (store : Store) (description : Bundle) (target : WorksheetId)
    (placement : CreatePlacement) : Except StoreError (Bundle × Store) :=
  if ¬ description.kind.isDerived then
    .error (.usage ("Cannot create a " ++ description.kind.name ++ " bundle from a description"))
  else
    match store.contents.worksheet? target with
    | none => .error (.noWorksheet target)
    | some _ =>
      let id := supply store.allocated
      let described : Bundle :=
        { description with
          ownerId := store.contents.ownerId
          state := .created
          frozen := none
          dataHash := none
          stateDetails := none }
      let bundle := described.withId id
      .ok (bundle.explained,
        { store with
          contents := (store.contents.addBundle bundle).placeNew id target placement
          createdBundles := store.createdBundles ++ [id]
          allocated := store.allocated + 1 })

/-- Puts an item at the end of a worksheet; an item for a bundle needs that bundle. -/
def createWorksheetItem (store : Store) (item : WorksheetItem) (target : WorksheetId) :
    Except StoreError (WorksheetItem × Store) :=
  match item.bundleId?.filter fun id => (store.contents.bundle? id).isNone with
  | some id => .error (.noBundle id)
  | none =>
    match store.contents.worksheet? target with
    | none => .error (.noWorksheet target)
    | some _ =>
      .ok (item,
        { store with
          contents := store.contents.addItem item target
          createdItems := store.createdItems ++ [(target, item)] })

/-- The answer to a call, and the store after it. -/
def answer (supply : IdSupply) (store : Store) :
    (call : Call) → Except StoreError (call.Answer × Store)
  | .fetchBundles specs depth => (store.contents.fetchBundles specs depth).map (·, store)
  | .fetchBundle id => (store.contents.fetchBundle id).map (·, store)
  | .fetchWorksheetsByBundle id => .ok (store.contents.fetchWorksheetsByBundle id, store)
  | .fetchWorksheet id => (store.contents.fetchWorksheet id).map (·, store)
  | .createBundle description target placement =>
    store.createBundle supply description target placement
  | .createWorksheetItem item target => store.createWorksheetItem item target
  | .searchBundles command keys => .ok (store.contents.searchBundles command keys, store)

/-- Answers a call: counts it, then fails it if a failure is queued. -/
def handle (supply : IdSupply) : Handler Store := fun call store =>
  let counted := { store with counts := store.counts.bump call.operation }
  match counted.failures with
  | error :: failures => (.error error, { counted with failures := failures })
  | [] =>
    match counted.answer supply call with
    | .ok (answer, next) => (.ok answer, next)
    | .error error => (.error error, counted)

end Store

end Provenance
