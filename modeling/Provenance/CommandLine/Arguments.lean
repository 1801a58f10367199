import Provenance.Json.Reader
import Provenance.Metadata
import Provenance.Text.Digits
import Provenance.Word

/-!
# Arguments

The arguments are options with long names.  A flag stands alone; any other option takes a value,
behind an equals sign or as the next argument, which may then not look like an option itself.  Only
inputs and metadata may be given more than once.

`Invocation.ofArguments` reads arguments from the left; the first one that is out of order, or that
asks for the version or for help, decides.
-/

namespace Provenance

/-- What a replay from the command line is given. -/
structure Arguments where
  /-- The file that holds the store. -/
  store : String
  oldInputs : List String
  newInputs : List String
  oldOutput : Option String
  name : Option String
  worksheet : String
  /-- The number of levels, if it is not left to the settings. -/
  depth : Option Nat
  shadow : Bool
  dryRun : Bool
  memoize : Bool
  skipPrelude : Bool
  metadata : List (String × Json.Value)
  /-- The directory for settings and logs, if it is not the usual one. -/
  dataDir : Option String
deriving DecidableEq

/-- What the command line asks for. -/
inductive Invocation where
  /-- The arguments are out of order. -/
  | refused
  | version
  | help
  | replay (arguments : Arguments)
deriving DecidableEq

/-- The arguments read so far. -/
structure GivenArguments where
  store : Option String
  oldInputs : List String
  newInputs : List String
  oldOutput : Option String
  name : Option String
  worksheet : Option String
  depth : Option Nat
  shadow : Bool
  dryRun : Bool
  memoize : Bool
  skipPrelude : Bool
  metadata : List (String × Json.Value)
  dataDir : Option String

namespace GivenArguments

/-- No arguments. -/
def nothing : GivenArguments where
  store := none
  oldInputs := []
  newInputs := []
  oldOutput := none
  name := none
  worksheet := none
  depth := none
  shadow := false
  dryRun := false
  memoize := false
  skipPrelude := false
  metadata := []
  dataDir := none

/-! ### Values -/

/-- A value of an option that is given once. -/
def once {α : Type} (before : Option α) (value : Option α) : Option (Option α) :=
  match before with
  | some _ => none
  | none => value.map some

/-- The name of a file, which is not empty. -/
def path? (text : String) : Option String :=
  if text = "" then none else some text

/-- A number of levels, with or without a sign. -/
def depth? (text : String) : Option Nat :=
  let signed : Bool × List Char := match text.toList with
    | '-' :: rest => (true, rest)
    | '+' :: rest => (false, rest)
    | rest => (false, rest)
  match Text.digits? signed.2 with
  | some (digits, []) =>
    let n := Text.value digits
    if n ≤ mostOfBits 32 ∧ (signed.1 → n = 0) then some n else none
  | _ => none

/-- The part of a text in front of its first equals sign, and the part behind it. -/
def splitAtEquals? : List Char → Option (List Char × List Char)
  | [] => none
  | c :: rest =>
    if c = '=' then some ([], rest)
    else (splitAtEquals? rest).map fun parts => (c :: parts.1, parts.2)

/-- A metadata key with its value, which is JSON if it reads as JSON and a string otherwise. -/
def metadata? (text : String) : Option (String × Json.Value) :=
  match splitAtEquals? text.toList with
  | none | some ([], _) => none
  | some (key, value) =>
    let value := String.ofList value
    some (String.ofList key, ((Json.read? value).map Json.toValue).getD (.ofString value))

/-! ### Options -/

/-- Sets a flag, if there is one of this name and it is not set yet. -/
def raise? (given : GivenArguments) (name : String) : Option GivenArguments :=
  match name with
  | "shadow" => if given.shadow then none else some { given with shadow := true }
  | "dry-run" => if given.dryRun then none else some { given with dryRun := true }
  | "memoize" => if given.memoize then none else some { given with memoize := true }
  | "skip-prelude" => if given.skipPrelude then none else some { given with skipPrelude := true }
  | _ => none

/-- The flags. -/
def flags : List String :=
  ["shadow", "dry-run", "memoize", "skip-prelude"]

/-- Gives a value to an option, if there is one of this name and the value is in order. -/
def set? (given : GivenArguments) (name value : String) : Option GivenArguments :=
  match name with
  | "store" => (once given.store (path? value)).map fun store => { given with store }
  | "old-input" => some { given with oldInputs := given.oldInputs ++ [value] }
  | "new-input" => some { given with newInputs := given.newInputs ++ [value] }
  | "old-output" =>
    (once given.oldOutput (some value)).map fun oldOutput => { given with oldOutput }
  | "name" => (once given.name (some value)).map fun name => { given with name }
  | "worksheet" =>
    (once given.worksheet (some value)).map fun worksheet => { given with worksheet }
  | "depth" => (once given.depth (depth? value)).map fun depth => { given with depth }
  | "metadata" =>
    (metadata? value).map fun item => { given with metadata := given.metadata ++ [item] }
  | "data-dir" => (once given.dataDir (path? value)).map fun dataDir => { given with dataDir }
  | _ => none

/-- Whether an argument cannot be the value of the option in front of it. -/
def looksLikeOption (argument : String) : Bool :=
  match argument.toList with
  | '-' :: _ :: _ => true
  | _ => false

/-- The replay that is asked for, if nothing is missing. -/
def complete (given : GivenArguments) : Invocation :=
  match given.store, given.worksheet with
  | some store, some worksheet => .replay { given with store, worksheet }
  | _, _ => .refused

/-- Reads arguments. -/
def read (given : GivenArguments) : List String → Invocation
  | [] => given.complete
  | argument :: rest =>
    match argument.toList with
    | ['-', '-'] => if rest = [] then given.complete else .refused
    | '-' :: '-' :: body =>
      match splitAtEquals? body with
      | some (name, value) =>
        match given.set? (String.ofList name) (String.ofList value) with
        | some given => given.read rest
        | none => .refused
      | none =>
        let name := String.ofList body
        if name = "version" then .version
        else if name = "help" then .help
        else if name ∈ flags then
          match given.raise? name with
          | some given => given.read rest
          | none => .refused
        else
          match rest with
          | [] => .refused
          | value :: rest =>
            if looksLikeOption value then .refused
            else
              match given.set? name value with
              | some given => given.read rest
              | none => .refused
    | '-' :: 'V' :: _ => .version
    | '-' :: 'h' :: _ => .help
    | _ => .refused

end GivenArguments

/-- What arguments ask for. -/
def Invocation.ofArguments (arguments : List String) : Invocation :=
  GivenArguments.nothing.read arguments

end Provenance
