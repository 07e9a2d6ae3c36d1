import StoreGateway.CommandLine.Usage
import Std.Time.DateTime.Timestamp

/-!
The program. It reads the files that a command needs, runs the command on them, and writes those
that it changed.
-/

namespace StoreGateway.CommandLine

def readText? (path : String) : IO (Option String) := do
  try return some (← IO.FS.readFile path) catch _ => return none

/-- Reads the file at a path into the workspace, if there is one. -/
def load (w : Workspace) (path : String) (stored : String → Stored) : IO Workspace := do
  match ← readText? (w.place path) with
  | some content => return w.put path (stored content)
  | none => return w

/-- The workspace of an invocation: the configuration, the input and the store. -/
def loadFor (w : Workspace) (i : Invocation) : IO Workspace := do
  let directory := i.project.getD w.directory
  let w ← load w (configPath directory) .text
  let w ← match i.command with
    | .write _ _ input _ => load w input .text
    | _ => pure w
  match Config.load (configPath directory) (w.text? (configPath directory)) with
  | .ok config => load w (config.storePath directory) (Stored.ofText config.store.kind)
  | .error _ => return w

/-- Writes what is not as it was. -/
def save (before after : Workspace) : IO Unit := do
  for (path, stored) in after.contents do
    if (before.contents.lookup path).map Stored.toText != some stored.toText then
      IO.FS.createDirAll (Path.parent path)
      IO.FS.writeFile path stored.toText

def newSupply : IO Supply := do
  let now ← Std.Time.Timestamp.now
  let bytes ← IO.getRandomBytes 15
  return ⟨now.toNanosecondsSinceUnixEpoch.toInt.toNat,
    bytes.foldl (fun n byte => n * 256 + byte.toNat) 0⟩

def terminal : IO Terminal := do
  return .ofEnvironment (← (← IO.getStdout).isTty) (← IO.getEnv "CLICOLOR_FORCE")
    (← IO.getEnv "NO_COLOR") (← IO.getEnv "CLICOLOR")

def report (words : List String) : IO Report := do
  match Invocation.ofWords words with
  | .error halt => return halt.report
  | .ok i =>
    let w ← loadFor ⟨(← IO.currentDir).toString, [], ← newSupply⟩ i
    let (report, after) := i.run (← terminal) w
    save w after
    return report

end StoreGateway.CommandLine

def main (words : List String) : IO UInt32 := do
  let report ← StoreGateway.CommandLine.report words
  IO.print report.output
  IO.eprint report.errors
  return report.code.toUInt32
