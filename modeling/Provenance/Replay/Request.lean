import Provenance.Store.Error
import Provenance.Worksheet.Basic

/-!
# Requests to replay

A request pairs old inputs with new ones, may name an old output, and says where the new bundles go
and how they are made.  `ReplayError` says why a replay failed; `Request.validate` finds what is
wrong with a request before anything is fetched.
-/

namespace Provenance

/-- Why a replay failed. -/
inductive ReplayError where
  /-- The inputs do not pair up. -/
  | unpairedInputs (old new : Nat)
  /-- The request names neither an output nor an input. -/
  | nothingToReplay
  /-- The request names no worksheet. -/
  | noTarget
  /-- Nothing with an id answers to a spec. -/
  | noMatch (spec : String)
  /-- A bundle that has to be made again is no derived bundle. -/
  | notDerived (id : BundleId)
  /-- A call to the store failed. -/
  | store (error : StoreError)
deriving DecidableEq

namespace ReplayError

/-- The wording of a failure. -/
def message : ReplayError → String
  | unpairedInputs old new =>
    "Got " ++ toString old ++ " old inputs but " ++ toString new ++ " new inputs"
  | nothingToReplay => "Nothing to mimic: give an old output or at least one old input"
  | noTarget => "No target worksheet given"
  | noMatch spec => "No bundle matches " ++ spec
  | notDerived id => "Can't mimic " ++ id ++ " since it is not make or run"
  | store error => error.message

/-- Whether the caller is to blame, and not the store. -/
def isUsage : ReplayError → Bool
  | unpairedInputs _ _ | nothingToReplay | noTarget | noMatch _ | notDerived _ => true
  | store error => error.isUsage

end ReplayError

/-- What holds for a request that does not say otherwise. -/
structure RequestDefaults where
  depth : Nat
  shadow : Bool
  memoize : Bool
  skipPrelude : Bool
deriving DecidableEq

/-- The defaults when nothing else is set. -/
def RequestDefaults.standard : RequestDefaults :=
  ⟨10, false, false, false⟩

/-- A request to replay. -/
structure Request where
  /-- The bundles to replace, each by the new input at its position. -/
  oldInputs : List BundleId
  newInputs : List BundleId
  /-- The bundle whose history is replayed; without one, all that descends from the old inputs. -/
  oldOutput : Option BundleId
  /-- The name of the bundle that stands in for the old output. -/
  outputName : Option String
  /-- The worksheet that gets the new bundles. -/
  worksheet : WorksheetId
  /-- How many levels of the graph are looked at. -/
  depth : Nat
  /-- Each new bundle goes right behind the one it stands in for. -/
  shadow : Bool
  /-- Only plan. -/
  dryRun : Bool
  /-- Metadata for every new bundle. -/
  overrides : Metadata
  /-- Do not copy the preludes. -/
  skipPrelude : Bool
  /-- Take an equivalent bundle instead of a new one where there is one. -/
  memoize : Bool
deriving DecidableEq

namespace Request

/-- A request that names no bundles yet. -/
def ofDefaults (worksheet : WorksheetId) (defaults : RequestDefaults) : Request where
  oldInputs := []
  newInputs := []
  oldOutput := none
  outputName := none
  worksheet := worksheet
  depth := defaults.depth
  shadow := defaults.shadow
  dryRun := false
  overrides := .empty
  skipPrelude := defaults.skipPrelude
  memoize := defaults.memoize

/-- The output name; an empty one does not count. -/
def outputName? (request : Request) : Option String :=
  request.outputName.filter fun name => name ≠ ""

/-- The bundle whose place on its worksheet the new bundles follow. -/
def anchor? (request : Request) : Option BundleId :=
  match request.oldOutput with
  | some output => some output
  | none => request.oldInputs.head?

/-- Whether a bundle is the old output. -/
def isOutput (request : Request) (id : BundleId) : Bool :=
  request.oldOutput = some id

/-- The old inputs with their replacements. -/
def pairs (request : Request) : List (BundleId × BundleId) :=
  request.oldInputs.zip request.newInputs

/-- Finds what is wrong with a request in itself. -/
def validate (request : Request) : Except ReplayError Unit :=
  if request.oldInputs.length ≠ request.newInputs.length then
    .error (.unpairedInputs request.oldInputs.length request.newInputs.length)
  else if request.oldOutput = none ∧ request.oldInputs = [] then .error .nothingToReplay
  else if request.worksheet = "" then .error .noTarget
  else .ok ()

end Request

end Provenance
