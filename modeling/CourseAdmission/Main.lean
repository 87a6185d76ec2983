import CourseAdmission.CommandLine.Run
import Std.Time.DateTime.Timestamp

/-!
The program: looks at the files that a command is about, runs the command on them, and writes what
it changed.
-/

namespace CourseAdmission.CommandLine.Program

/-- What is at a path, if it can be read. The entries of a folder are looked at only if asked
    for. -/
partial def treeAt? (path : String) (entries : Bool) : IO (Option FileTree) := do
  let place := (← IO.currentDir) / path
  if ← place.isDir then
    if entries then
      let names := (← place.readDir).toList.map (·.fileName)
      let trees ← names.filterMapM fun name => do
        return (← treeAt? (Path.join path name) true).map (name, ·)
      return some (.folder trees)
    else return some (.folder [])
  else if ← place.pathExists then
    try return some (.file (← IO.FS.readFile place)) catch _ => return none
  else return none

/-- The disk with what is at a row of pieces, unless it is there already. -/
def lookAt (entries : Bool) (disk : Disk) (pieces : List String) : IO Disk := do
  match disk.locatePieces pieces with
  | .error _ => return disk
  | .ok place =>
    if (disk.root.at? place).isSome then return disk
    match ← treeAt? ("/".intercalate pieces) entries with
    | some tree => return { disk with root := .put tree place disk.root }
    | none => return disk

/-- The disk with what is at a path, and with the folders that lead there. -/
def look (disk : Disk) (path : String) : IO Disk := do
  let disk ← (Disk.ancestors (Path.components path)).foldlM (lookAt false) disk
  lookAt true disk (Disk.withoutTrail (Path.pieces path))

/-- The variables that the program asks for. -/
def readEnvironment : IO Environment :=
  ["HOME", "ADMISSION_OUTPUT_DIR", "ADMISSION_PARALLELISM"].filterMapM fun name => do
    return (← IO.getEnv name).map (name, ·)

/-- A stamp of this moment. -/
def newStamp : IO Report.Stamp := do
  let bytes ← IO.getRandomBytes 16
  let bits := bytes.toList.foldl (fun n byte => n * 256 + byte.toNat) 0
  let now ← Std.Time.Timestamp.now
  match Instant.ofUnixTime? now.toNanosecondsSinceUnixEpoch.val.toNat with
  | some createdAt => return ⟨.ofRandom (BitVec.ofNat 128 bits), createdAt, 0⟩
  | none => throw (IO.userError "the clock is out of range")

/-- Writes the files that a run changed. -/
def store (before after : Disk) : IO Unit :=
  (Disk.changedFiles before after).forM fun (path, content) => do
    let folder := "/".intercalate (Path.pieces path).dropLast
    if folder != "" then IO.FS.createDirAll folder
    IO.FS.writeFile path content

/-- Runs a command. It is run twice: the first time tells how long it takes, which a report says. -/
def perform (invocation : Invocation) : IO UInt32 := do
  let environment ← readEnvironment
  let working := Path.names (← IO.currentDir).toString
  let disk ← (invocation.settingsPaths environment).foldlM look (.empty working)
  let settings := (Settings.load disk environment invocation.settings).toOption.getD .default
  let disk ← (invocation.command.paths settings).foldlM look disk
  let stamp ← newStamp
  let start ← IO.monoMsNow
  let _ ← IO.lazyPure fun _ => (invocation.run disk environment stamp []).exitCode
  let stamp := { stamp with duration := (← IO.monoMsNow) - start }
  let outcome := invocation.run disk environment stamp []
  store disk outcome.disk
  IO.print outcome.outputText
  IO.eprint outcome.notesText
  return outcome.exitCode.toUInt32

end CourseAdmission.CommandLine.Program

open CourseAdmission.CommandLine in
def main (arguments : List String) : IO UInt32 := do
  match Invocation.ofArguments arguments with
  | .ok invocation => Program.perform invocation
  | .error .version =>
    IO.print versionText
    return 0
  | .error .help =>
    IO.print usageText
    return 0
  | .error .usage =>
    IO.eprint usageText
    return 2
