import Provenance.CommandLine.Arguments
import Provenance.Replay.Run
import Provenance.Settings
import Provenance.Store.Codec

/-!
# What a command does

`Arguments.execute` is the whole of a replay from the command line as a function: from the settings
and the text of the store file to what is printed and what is written back.  The plan is printed;
the store is written back unless the replay failed or only planned.
-/

namespace Provenance

/-- What a command leaves behind. -/
structure Report where
  exitCode : Nat
  /-- What is printed. -/
  output : String
  /-- Why the command failed. -/
  failure : Option String
  /-- The text to write to the store file. -/
  store : Option String
deriving DecidableEq

namespace Report

/-- Something is printed, and that is all. -/
def print (output : String) : Report :=
  ⟨0, output, none, none⟩

/-- The command failed. -/
def failed (reason : String) : Report :=
  ⟨1, "", some reason, none⟩

/-- There is no directory for the log file, and none can be made. -/
def withoutLogDirectory : Report :=
  failed "Failed to create logs directory"

/-- The log file cannot be opened. -/
def withoutLog : Report :=
  failed "Failed to open log file"

end Report

namespace Arguments

/-- The request that the arguments make.  A flag can only add to the defaults. -/
def request (arguments : Arguments) (defaults : RequestDefaults) : Request where
  oldInputs := arguments.oldInputs
  newInputs := arguments.newInputs
  oldOutput := arguments.oldOutput
  outputName := arguments.name
  worksheet := arguments.worksheet
  depth := arguments.depth.getD defaults.depth
  shadow := defaults.shadow || arguments.shadow
  dryRun := arguments.dryRun
  overrides := .ofPairs arguments.metadata
  skipPrelude := defaults.skipPrelude || arguments.skipPrelude
  memoize := defaults.memoize || arguments.memoize

/-- Replays a request on a store, attempting failed calls again. -/
def replay (settings : Settings) (supply : IdSupply) (request : Request) (contents : Contents) :
    Except ReplayError Replayed × Contents :=
  let ended := request.replay.run (settings.retry.retrying (Store.handle supply))
    ⟨.ofContents contents, []⟩
  (ended.1, ended.2.inner.contents)

/-- Carries out a replay; `file` is the text of the store file, if it can be read. -/
def execute (arguments : Arguments) (settings : Settings) (supply : IdSupply)
    (file : Option String) : Report :=
  match file.bind Contents.load? with
  | none => .failed ("Failed to load store from " ++ arguments.store)
  | some contents =>
    let request := arguments.request settings.defaults
    match replay settings supply request contents with
    | (.error error, _) => .failed error.message
    | (.ok replayed, after) =>
      { Report.print (replayed.plan.toJson.pretty ++ "\n") with
        store := if request.dryRun then none else some after.save }

end Arguments

/-- What the version option prints. -/
def versionText : String :=
  "mimic 0.2.0\n"

/-- How the command is used. -/
def usageText : String :=
  String.intercalate "\n" [
    "Replay the provenance of bundles on top of substituted inputs",
    "",
    "Usage: mimic [OPTIONS] --store <FILE> --worksheet <ID>",
    "",
    "  --store <FILE>           Store snapshot (JSON) to replay against",
    "  --old-input <ID>         Bundle to substitute; pair each with a --new-input",
    "  --new-input <ID>         Replacement for the --old-input at the same position",
    "  --old-output <ID>        Bundle whose history is replayed",
    "  --name <NAME>            Name for the bundle replacing --old-output",
    "  --worksheet <ID>         Worksheet receiving the new bundles",
    "  --depth <DEPTH>          Levels of ancestors to discover",
    "  --shadow                 Insert new bundles right after the bundles they replace",
    "  --dry-run                Print the plan without changing the store",
    "  --memoize                Reuse existing bundles with the same command and dependencies",
    "  --skip-prelude           Do not copy markup and directives above replaced bundles",
    "  --metadata <KEY=VALUE>   Metadata override for every new bundle (repeatable)",
    "  --data-dir <DIR>         Data directory for config and logs",
    ""]

end Provenance
