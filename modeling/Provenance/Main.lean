import Provenance.CommandLine.Execution

/-!
# The command

Files, the settings directory and random ids; everything else is `Arguments.execute`.
-/

namespace Provenance

/-- Ids of 128 bits in hexadecimal, counted up from a random one. -/
def hexSupply (first : Nat) : IdSupply := fun n =>
  let digits := Nat.toDigits 16 ((first + n) % Nat.pow 2 128)
  "0x" ++ String.ofList (List.replicate (32 - digits.length) '0' ++ digits)

/-- A random number of 128 bits. -/
def randomWord : IO Nat := do
  let bytes ← IO.getRandomBytes 16
  return bytes.foldl (fun n byte => 256 * n + byte.toNat) 0

/-- What an action gives, if it succeeds. -/
def attempt {α : Type} (action : IO α) : IO (Option α) := do
  try
    return some (← action)
  catch _ =>
    return none

/-- The directory for settings and logs. -/
def dataDirectory (chosen : Option String) : IO String := do
  match chosen with
  | some directory => return directory
  | none =>
    match ← IO.getEnv "HOME" with
    | some home => return home ++ "/.mimic"
    | none => return ".mimic"

/-- Makes the log file; if that fails, this is all that is reported. -/
def openLog (directory : String) : IO (Option Report) := do
  let logs := directory ++ "/logs"
  match ← attempt (IO.FS.createDirAll logs) with
  | none => return some .withoutLogDirectory
  | some () =>
    match ← attempt (IO.FS.Handle.mk (logs ++ "/mimic.log") .append) with
    | none => return some .withoutLog
    | some _ => return none

/-- Reads the settings, writing an example file if there is none. -/
def loadSettings (directory : String) : IO Settings := do
  let path := directory ++ "/config.toml"
  let file ← attempt (IO.FS.readBinFile path)
  if file.isNone then
    let _ ← attempt (IO.FS.writeFile path Settings.exampleText)
  return .ofFile (Settings.prepare file true)

/-- Prints what is reported, and writes the store back. -/
def deliver (path : String) (report : Report) : IO UInt32 := do
  match report.failure with
  | some reason =>
    IO.eprintln ("Error: " ++ reason)
    return report.exitCode.toUInt32
  | none =>
    IO.print report.output
    match report.store with
    | none => return report.exitCode.toUInt32
    | some text =>
      match ← attempt (IO.FS.writeFile path text) with
      | some () => return report.exitCode.toUInt32
      | none =>
        IO.eprintln ("Error: Failed to save store to " ++ path)
        return 1

/-- Carries out a replay on files. -/
def replayFiles (arguments : Arguments) : IO UInt32 := do
  let directory ← dataDirectory arguments.dataDir
  match ← openLog directory with
  | some report => deliver arguments.store report
  | none =>
    let settings ← loadSettings directory
    let file ← attempt (IO.FS.readFile arguments.store)
    deliver arguments.store
      (arguments.execute settings (hexSupply (← randomWord)) file)

end Provenance

/-- The command. -/
def main (arguments : List String) : IO UInt32 :=
  match Provenance.Invocation.ofArguments arguments with
  | .refused => do
    IO.eprint Provenance.usageText
    return 2
  | .version => do
    IO.print Provenance.versionText
    return 0
  | .help => do
    IO.print Provenance.usageText
    return 0
  | .replay arguments => Provenance.replayFiles arguments
