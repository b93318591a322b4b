/-
The program.

What a command line leads to is decided without a disk.  The program runs it on the part of the disk
that it knows, looks up the paths that the outcome depends on, and runs it again until it knows them
all; then it writes back what has changed.
-/
import Std.Time.DateTime.Timestamp
import StyleImport.Command.Run
import StyleImport.Journal.Clock

namespace StyleImport

namespace Program

/-- What stands at a path: a directory, shown empty, or a file with its bytes. -/
def load (path : Text) : IO (Option Node) := do
  let file := (← IO.currentDir) / String.ofList path
  if ← file.isDir then return some .emptyDirectory
  if ← file.pathExists then
    let bytes ← IO.FS.readBinFile file
    return some (.file bytes.toList 0)
  return none

/-- A disk with what stands at each of the directories on the way along names, and at its end. -/
def fetchNames (disk : Disk) (reached : List Text) : List Text → IO Disk
  | [] => return disk
  | name :: names => do
    if name = Path.up then fetchNames disk reached.dropLast names
    else
      let names' := reached ++ [name]
      match ← load (Disk.pathOf names') with
      | none => return disk
      | some (.directory _) =>
        let known := disk.root.at? names'
        fetchNames (if known.any Node.isDirectory then disk else disk.put names' .emptyDirectory)
          names' names
      | some n => return disk.put names' n

/-- A disk with what stands at a path. -/
def fetch (disk : Disk) (path : Text) : IO Disk :=
  fetchNames disk (if Path.isAbsolute path then [] else disk.cwd) (Path.names path)

/-- A disk with what stands at paths. -/
def fetchAll (disk : Disk) (paths : List Text) : IO Disk := paths.foldlM fetch disk

/-- The shell with a disk on which all paths that matter to a command line are known. -/
def settle (shell : Shell) (words known : List Text) : (tries : Nat) → IO Shell
  | 0 => return shell
  | tries + 1 => do
    match (shell.run words).2.asked.filter fun p => !known.contains p with
    | [] => return shell
    | new =>
      let disk ← fetchAll shell.disk new
      settle { shell with disk } words (known ++ new) tries

/-- A path written back, if it has changed. -/
def store (before after : Disk) (path : Text) : IO Unit := do
  let folder := Path.parent (Path.absolute after.cwdPath path)
  if after.isDirectory folder then IO.FS.createDirAll (String.ofList folder)
  match after.readBytes path with
  | .ok bytes =>
    if (before.readBytes path).toOption != some bytes then
      IO.FS.writeBinFile (String.ofList path) (ByteArray.mk bytes.toArray)
  | .error _ => return

/-- The value of a variable of the environment. -/
def setting (name : String) : IO (Option Text) := do
  return (← IO.getEnv name).map String.toList

/-- The environment of the program. -/
def environment : IO SettingsFiles.Environment := do
  return { unifying := ← setting "STYLEPATH_NORMALIZE_PATHS", root := ← setting "STYLEPATH_ROOT"
           home := (← setting "HOME").getD [] }

/-- The words of a command line that may be paths. -/
def mentioned (words : List Text) : List Text :=
  words ++ words.filterMap fun w => (Text.cutFirst '=' w).map (·.2)

/-- The time of the records of this run. -/
def now : IO Text := do
  let t ← Std.Time.Timestamp.now
  return Instant.text t.toMillisecondsSinceUnixEpoch.val.toNat

/-- The program on a command line: its exit code. -/
def run (words : List Text) : IO UInt32 := do
  let cwd := (← IO.currentDir).toString.toList
  let start : Disk := { cwd := Path.components cwd }
  let disk ← fetchAll start (cwd :: mentioned words)
  let shell : Shell := { environment := ← environment, time := ← now, disk }
  let shell ← settle shell words [] 1000
  let (outcome, after) := shell.run words
  for path in after.written do store shell.disk after.disk path
  IO.print (String.ofList outcome.out)
  IO.eprint (String.ofList outcome.err)
  match outcome.failure with
  | some e => IO.eprintln (String.ofList (e.className ++ ": " ++ e.message))
  | none => return outcome.exit.toUInt32
  return outcome.exit.toUInt32

end Program

end StyleImport

/-- The program. -/
def main (args : List String) : IO UInt32 :=
  StyleImport.Program.run (args.map String.toList)
