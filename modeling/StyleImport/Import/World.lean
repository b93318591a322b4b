/-
The surroundings that the library itself can offer to imports.

A world is a disk and a registry, with a journal of what happened.  A host may add a resolver of its
own and a reader; both are given by tables here, which is what a host without a program needs, and
what is asked of them is remembered.

* `World.host` — the world as what answers the questions of plans.
-/
import StyleImport.Import.Session
import StyleImport.Module.Registry

namespace StyleImport

/-- What a host's own resolver does with an identifier. -/
inductive HostAnswer where
  /-- It has the import. -/
  | found (r : Resolved)
  /-- It fails with a message. -/
  | failed (message : Text)
  deriving DecidableEq, Repr

/-- The outcomes of the reads of one path, one after the other; the last one is repeated. -/
abbrev ReadScript : Type := List (Except OsError Text)

/-- The surroundings of imports. -/
structure World where
  /-- The file tree. -/
  disk : Disk
  /-- Where module records come from. -/
  registry : Registry
  /-- The answers of the host's own resolver by identifier, if there is one; no answer is "not
  mine". -/
  resolver : Option (List (Text × HostAnswer)) := none
  /-- What the host's reader does with some paths; all others are read from the disk. -/
  reader : List (Text × ReadScript) := []
  /-- What the host's resolver was asked so far. -/
  asked : List (Text × Text) := []
  /-- The paths that were read so far. -/
  read : List Text := []
  /-- What happened so far. -/
  events : List Event := []

namespace World

/-- The next outcome of a script, and the rest of it. -/
def nextOutcome : ReadScript → Option (Except OsError Text × ReadScript)
  | [] => none
  | [outcome] => some (outcome, [outcome])
  | outcome :: rest => some (outcome, rest)

/-- Reading a path: as the reader says, or else from the disk. -/
def readPath (path : Text) (w : World) : ReadOutcome × World :=
  let w := { w with read := w.read ++ [path] }
  match (Entries.get? path w.reader).bind nextOutcome with
  | some (outcome, rest) =>
    (outcome.mapError .system, { w with reader := Entries.put path rest w.reader })
  | none => (w.disk.readText path, w)

/-- Asking the host's own resolver. -/
def ask (identifier prev : Text) (w : World) : Except Text (Option Resolved) × World :=
  match w.resolver with
  | none => (.ok none, w)
  | some answers =>
    let w := { w with asked := w.asked ++ [(identifier, prev)] }
    match Entries.get? identifier answers with
    | none => (.ok none, w)
    | some (.found r) => (.ok (some r), w)
    | some (.failed message) => (.error message, w)

/-- Looking up the record of a module. -/
def lookup (name context : Text) (w : World) :
    Except Failure (Option ModuleRecord) × World :=
  let (answer, registry, events) := w.registry.lookup w.disk name context
  (answer, { w with registry, events := w.events ++ events })

/-- The world as a host. -/
def host : Host World where
  isFile w p := w.disk.isFile p
  lookup := lookup
  read := readPath
  ask := ask
  note e w := { w with events := w.events ++ [e] }

/-- A compilation in a world. -/
def compilation (w : World) (session : Session := {}) : Compilation World :=
  { cwd := w.disk.cwdPath, host, session, state := w }

end World

/-- The registry of settings: the declared modules first, then the installed ones. -/
def Registry.ofRecordsAndDisk (records : List ModuleRecord) : Registry :=
  .chain [.ofRecords records, .installed none []]

end StyleImport
