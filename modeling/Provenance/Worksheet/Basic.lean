import Provenance.Bundle.Basic

/-!
# Worksheets

A worksheet is a list of items: references to bundles, and text around them.  The non-empty markup
and the directives directly above a bundle are its prelude.
-/

namespace Provenance

/-- What a worksheet is addressed by. -/
abbrev WorksheetId := String

/-- One entry of a worksheet. -/
inductive WorksheetItem where
  /-- A reference to a bundle. -/
  | bundle (id : BundleId)
  /-- Free text. -/
  | markup (value : String)
  /-- How to display what follows. -/
  | directive (value : String)
  /-- Anything else. -/
  | other (value : String)
deriving DecidableEq

namespace WorksheetItem

/-- The bundle an item refers to. -/
def bundleId? : WorksheetItem → Option BundleId
  | bundle id => some id
  | markup _ | directive _ | other _ => none

/-- Whether an item can introduce the bundle below it.  Empty markup separates instead. -/
def isPrelude : WorksheetItem → Bool
  | markup value => value ≠ ""
  | directive _ => true
  | bundle _ | other _ => false

end WorksheetItem

/-- What a list of worksheets says about one. -/
structure WorksheetSummary where
  id : WorksheetId
  name : String
  title : Option String
deriving DecidableEq

/-- A worksheet with its items. -/
structure Worksheet where
  id : WorksheetId
  name : String
  title : Option String
  items : List WorksheetItem
deriving DecidableEq

namespace Worksheet

/-- The worksheet without its items. -/
def summary (worksheet : Worksheet) : WorksheetSummary :=
  ⟨worksheet.id, worksheet.name, worksheet.title⟩

/-- Whether an item refers to a bundle. -/
def containsBundle (worksheet : Worksheet) (id : BundleId) : Bool :=
  worksheet.items.any fun item => item.bundleId? = some id

/-- Puts an item at the end. -/
def append (worksheet : Worksheet) (item : WorksheetItem) : Worksheet :=
  { worksheet with items := worksheet.items ++ [item] }

/-- Puts an item for `new` behind every item for `old`. -/
def shadow (worksheet : Worksheet) (old new : BundleId) : Worksheet :=
  { worksheet with
    items := worksheet.items.flatMap fun item =>
      if item.bundleId? = some old then [item, .bundle new] else [item] }

end Worksheet

end Provenance
