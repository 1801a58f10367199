import Provenance.Bundle.Basic

/-!
# What can go wrong with a store

`StoreError` says why a call to a store failed.  Only a failure of the transport is worth another
attempt; a call that was attempted often enough fails with `retriesExhausted`.
-/

namespace Provenance

/-- The calls that a store answers. -/
inductive Operation where
  | fetchBundles
  | fetchBundle
  | fetchWorksheetsByBundle
  | fetchWorksheet
  | createBundle
  | createWorksheetItem
  | searchBundles
deriving DecidableEq

/-- The name of a call in messages. -/
def Operation.name : Operation → String
  | fetchBundles => "fetch_bundles"
  | fetchBundle => "fetch_bundle"
  | fetchWorksheetsByBundle => "fetch_worksheets_by_bundle"
  | fetchWorksheet => "fetch_worksheet"
  | createBundle => "create_bundle"
  | createWorksheetItem => "create_worksheet_item"
  | searchBundles => "search_bundles_by_command_and_dependencies"

/-- The failure of a call to a store. -/
inductive StoreError where
  /-- The call makes no sense. -/
  | usage (reason : String)
  /-- What the call names is not there. -/
  | notFound (what : String)
  /-- The caller has not identified itself. -/
  | unauthorized (reason : String)
  /-- The caller may not do this. -/
  | permissionDenied (reason : String)
  /-- The call did not reach the store, or the answer did not come back. -/
  | transport (reason : String)
  /-- The store itself failed. -/
  | internal (reason : String)
  /-- Every attempt failed; the last one in this way. -/
  | retriesExhausted (operation : String) (attempts : Nat) (last : StoreError)
deriving DecidableEq

namespace StoreError

/-- The wording of a failure. -/
def message : StoreError → String
  | usage reason => reason
  | notFound what => "Not found: " ++ what
  | unauthorized reason => "Authentication required: " ++ reason
  | permissionDenied reason => "Permission denied: " ++ reason
  | transport reason => "Transport error: " ++ reason
  | internal reason => "Store error: " ++ reason
  | retriesExhausted operation attempts last =>
    operation ++ " failed after " ++ toString attempts ++ " attempts: " ++ last.message

/-- Whether another attempt could succeed. -/
def isTransient : StoreError → Bool
  | transport _ => true
  | usage _ | notFound _ | unauthorized _ | permissionDenied _ | internal _
  | retriesExhausted _ _ _ => false

/-- Whether the caller is to blame, and not the store. -/
def isUsage : StoreError → Bool
  | usage _ | notFound _ | unauthorized _ | permissionDenied _ => true
  | transport _ | internal _ | retriesExhausted _ _ _ => false

/-- The failure that an HTTP status reports. -/
def ofHttpStatus (code : Nat) (text : String) : StoreError :=
  if code = 403 then permissionDenied text
  else if code = 401 then unauthorized text
  else if code = 404 then notFound text
  else if 400 ≤ code ∧ code ≤ 499 then usage text
  else internal text

/-- The HTTP status that reports a failure. -/
def httpStatus : StoreError → Nat
  | permissionDenied _ => 403
  | unauthorized _ => 401
  | notFound _ => 404
  | usage _ => 400
  | transport _ | internal _ | retriesExhausted _ _ _ => 500

/-- The failure that an exhausted call ended with. -/
def last? : StoreError → Option StoreError
  | retriesExhausted _ _ last => some last
  | usage _ | notFound _ | unauthorized _ | permissionDenied _ | transport _ | internal _ => none

/-- A refusal to change a bundle is a lack of permission. -/
def ofGuard (error : GuardError) : StoreError :=
  permissionDenied error.message

/-- There is no bundle under an id. -/
def noBundle (id : BundleId) : StoreError :=
  notFound ("bundle " ++ id)

/-- There is no bundle that an id or a name stands for. -/
def noMatch (spec : String) : StoreError :=
  notFound ("bundle spec " ++ spec)

/-- There is no worksheet under an id. -/
def noWorksheet (id : String) : StoreError :=
  notFound ("worksheet " ++ id)

/-- A store created the counterpart of an old bundle and did not say under which id. -/
def withoutId (old : BundleId) : StoreError :=
  internal ("store returned no id for the bundle mimicking " ++ old)

end StoreError

end Provenance
