import Provenance.Json.Record
import Provenance.Replay.Request
import Provenance.Store.Retry
import Provenance.Toml.Reader
import Provenance.Word

/-!
# Settings

The settings file is a TOML document with two sections: `retry` sets parts of the retry policy, and
`defaults` says what holds for a request that does not say otherwise.  Everything else in it is
passed over.

A file that cannot be read, or in which one known value is ill-typed or out of range, sets nothing
at all.  Parts of a retry policy can be given in JSON as well.
-/

namespace Provenance

namespace Toml

/-- What a section of a document gives for the names it may know.  A table gives its members, an
array gives values by position and has to give all of them, and a moment gives nothing. -/
def section? (names : List String) : Toml → Option (List (String × Toml))
  | table members => some members
  | array items => if names.length ≤ items.length then some (names.zip items) else none
  | moment _ => some []
  | string _ | integer _ | float _ | bool _ => none

/-- A value that need not be given. -/
def optional? {α : Type} (read? : Toml → Option α) (name : String)
    (given : List (String × Toml)) : Option (Option α) :=
  match given.lookup name with
  | some value => (read? value).map some
  | none => some none

end Toml

namespace RetrySettings

/-- Nothing is set. -/
def nothing : RetrySettings :=
  ⟨none, none, none⟩

/-- The names in the section, in their order. -/
def names : List String :=
  ["max_attempts", "initial_delay_ms", "backoff_factor"]

/-- Reads the section. -/
def ofToml? (value : Toml) : Option RetrySettings := do
  let given ← value.section? names
  let maxAttempts ← Toml.optional? (Toml.nat? (mostOfBits 32)) "max_attempts" given
  let initialDelayMillis ← Toml.optional? (Toml.nat? (mostOfBits 64)) "initial_delay_ms" given
  let backoffFactor ← Toml.optional? (Toml.nat? (mostOfBits 32)) "backoff_factor" given
  return { maxAttempts, initialDelayMillis, backoffFactor }

/-- Reads the parts of a policy from JSON, where null sets nothing. -/
def ofJson? (value : Json) : Option RetrySettings := do
  let record ← Record.ofWhole? names value
  let maxAttempts ←
    record.optional? "max_attempts" none (Json.nullable? (Json.nat? (mostOfBits 32)))
  let initialDelayMillis ←
    record.optional? "initial_delay_ms" none (Json.nullable? (Json.nat? (mostOfBits 64)))
  let backoffFactor ←
    record.optional? "backoff_factor" none (Json.nullable? (Json.nat? (mostOfBits 32)))
  return { maxAttempts, initialDelayMillis, backoffFactor }

end RetrySettings

/-- The request defaults that are set. -/
structure DefaultSettings where
  depth : Option Nat
  shadow : Option Bool
  memoize : Option Bool
  skipPrelude : Option Bool
deriving DecidableEq

namespace DefaultSettings

/-- Nothing is set. -/
def nothing : DefaultSettings :=
  ⟨none, none, none, none⟩

/-- The names in the section, in their order. -/
def names : List String :=
  ["depth", "shadow", "memoize", "skip_prelude"]

/-- Reads the section. -/
def ofToml? (value : Toml) : Option DefaultSettings := do
  let given ← value.section? names
  let depth ← Toml.optional? (Toml.nat? (mostOfBits 32)) "depth" given
  let shadow ← Toml.optional? Toml.bool? "shadow" given
  let memoize ← Toml.optional? Toml.bool? "memoize" given
  let skipPrelude ← Toml.optional? Toml.bool? "skip_prelude" given
  return { depth, shadow, memoize, skipPrelude }

end DefaultSettings

/-- The defaults with those replaced that are set. -/
def RequestDefaults.merge (defaults : RequestDefaults) (settings : DefaultSettings) :
    RequestDefaults where
  depth := settings.depth.getD defaults.depth
  shadow := settings.shadow.getD defaults.shadow
  memoize := settings.memoize.getD defaults.memoize
  skipPrelude := settings.skipPrelude.getD defaults.skipPrelude

/-- What the settings file decides. -/
structure Settings where
  retry : RetryPolicy
  defaults : RequestDefaults
deriving DecidableEq

namespace Settings

/-- The settings when nothing is set. -/
def standard : Settings :=
  ⟨.standard, .standard⟩

/-- The settings of a document. -/
def ofToml? (document : Toml) : Option Settings := do
  let given ← document.section? ["retry", "defaults"]
  let retry ← Toml.optional? RetrySettings.ofToml? "retry" given
  let defaults ← Toml.optional? DefaultSettings.ofToml? "defaults" given
  return {
    retry := standard.retry.merge (retry.getD .nothing)
    defaults := standard.defaults.merge (defaults.getD .nothing) }

/-- The settings of a text. -/
def ofText (text : String) : Settings :=
  ((Toml.read? text).bind ofToml?).getD standard

/-- The settings of the octets of a file. -/
def ofBytes (bytes : ByteArray) : Settings :=
  ((String.fromUTF8? bytes).map ofText).getD standard

/-- The lines of a settings file that sets nothing and says what could be set. -/
def exampleLines : List String := [
    "# mimic configuration",
    "#",
    "# Every key is optional; anything left out keeps its built-in default.",
    "",
    "[retry]",
    "# Total attempts per store call, including the first one",
    "# max_attempts = 2",
    "# Delay before the first retry, doubled (by default) after each one",
    "# initial_delay_ms = 1000",
    "# backoff_factor = 2",
    "",
    "[defaults]",
    "# How many levels of ancestors to walk up from the old output or inputs",
    "# depth = 10",
    "# Insert new bundles right after every occurrence of the bundle they replace",
    "# shadow = false",
    "# Reuse previously created bundles with the same command and dependencies",
    "# memoize = false",
    "# Do not copy the markup and directives that precede replaced bundles",
    "# skip_prelude = false"]

/-- A settings file that sets nothing and says what could be set. -/
def exampleText : String :=
  String.join (exampleLines.map (· ++ "\n"))

/-- A settings file: missing, or with this content. -/
abbrev File : Type :=
  Option ByteArray

/-- What is in the settings file after the first look at it: a missing file is written, if that is
possible. -/
def prepare (file : File) (writable : Bool) : File :=
  match file with
  | some bytes => some bytes
  | none => if writable then some exampleText.toUTF8 else none

/-- The settings of a file. -/
def ofFile : File → Settings
  | some bytes => ofBytes bytes
  | none => standard

end Settings

end Provenance
