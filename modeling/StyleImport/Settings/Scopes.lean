/-
Settings files and their scopes.

Settings come from up to three files: the user's, the project's and the machine's own.  They are
laid over each other in this order, so the most specific file counts.  A file that is no document is
skipped with a warning; a document that is no map is a failure.

* `SettingsFiles.merged` — the three files laid over each other;
* `SettingsFiles.settings` — the settings that come of them;
* `SettingsFiles.update` — one setting written to one file.
-/
import StyleImport.Data.Format
import StyleImport.Data.Merge
import StyleImport.Disk.Lookup
import StyleImport.Journal.Event
import StyleImport.Settings.Basic

namespace StyleImport

/-- For whom a settings file counts. -/
inductive Scope where
  /-- For all projects of a user. -/
  | user
  /-- For everyone who works on a project. -/
  | project
  /-- For a project on one machine. -/
  | machine
  deriving DecidableEq, Repr

namespace Scope

/-- The scopes, the most general one first. -/
def all : List Scope := [.user, .project, .machine]

/-- The word for a scope. -/
def name : Scope → Text
  | .user => "global"
  | .project => "project"
  | .machine => "local"

/-- The scope with a name. -/
def ofName? (t : Text) : Option Scope := all.find? fun s => s.name = t

end Scope

/-- The paths of the settings files. -/
structure SettingsFiles where
  /-- The path of each scope's file. -/
  path : Scope → Text

namespace SettingsFiles

/-- The directory of settings files. -/
def directory : Text := ".stylepath"

/-- The usual paths of the settings files, for a home and a project directory. -/
def usual (home project : Text) : SettingsFiles where
  path
    | .user => Path.append (Path.append home directory) "settings.yaml"
    | .project => Path.append (Path.append project directory) "settings.yaml"
    | .machine => Path.append (Path.append project directory) "settings.local.yaml"

/-- The home directory that the environment names, without slashes at its end. -/
def homeDirectory (setting : Text) : Text :=
  match Text.dropEndWhile (· = '/') setting with
  | [] => ['/']
  | home => Path.collapse home

/-- The event that a file is skipped. -/
def skipped (path reason : Text) : Event :=
  ⟨.settings, Level.warning, "Skipping malformed settings file " ++ path ++ ": " ++ reason⟩

/-- What a settings file holds. -/
inductive Contents where
  /-- There is no such file. -/
  | absent
  /-- It is no document, for a reason. -/
  | malformed (reason : Text)
  /-- It holds a document. -/
  | document (d : Data)

/-- What a settings file of some bytes at a path holds. -/
def Contents.ofBytes (format : DocumentFormat) (path : Text) (bytes : List UInt8) :
    Except Failure Contents :=
  match Utf8.decode bytes with
  | .ok t =>
    match format.read (Utf8.translateNewlines t) with
    | .ok d => .ok (.document d)
    | .error reason => .ok (.malformed (reason path))
  | .error f =>
    match format.wrongBefore bytes with
    | some reason => .ok (.malformed (reason path))
    | none => .error (.read (.undecodable f))

/-- What the settings file at a path holds. -/
def contents (format : DocumentFormat) (disk : Disk) (path : Text) : Except Failure Contents :=
  match disk.presentOrFail path with
  | .error e => .error (.read e)
  | .ok false => .ok .absent
  | .ok true =>
    match disk.readBytes path with
    | .error e => .error (.read e)
    | .ok bytes => Contents.ofBytes format path bytes

/-- The entries of a document: one that is empty or nothing has none. -/
def entries (d : Data) : Except Failure (List (Scalar × Data)) :=
  match d with
  | .map es => .ok es
  | d => if d.isTrue then .error .notAMap else .ok []

/-- The entries of the settings file at a path, or none if it is skipped, and what happened. -/
def layer (format : DocumentFormat) (disk : Disk) (path : Text) :
    Except Failure (List (Scalar × Data)) × List Event :=
  match contents format disk path with
  | .error e => (.error e, [])
  | .ok .absent => (.ok [], [])
  | .ok (.malformed reason) => (.ok [], [skipped path reason])
  | .ok (.document d) => (entries d, [])

/-- Settings files laid over `lower`, the first one lowest, and what happened. -/
def mergeLayers (format : DocumentFormat) (disk : Disk) (lower : List (Scalar × Data)) :
    List Text → Except Failure (List (Scalar × Data)) × List Event
  | [] => (.ok lower, [])
  | path :: paths =>
    match layer format disk path with
    | (.error e, events) => (.error e, events)
    | (.ok upper, events) =>
      let (merged, more) := mergeLayers format disk (Data.mergeEntries lower upper) paths
      (merged, events ++ more)

/-- The settings files laid over each other, and what happened. -/
def merged (files : SettingsFiles) (format : DocumentFormat) (disk : Disk) :
    Except Failure (List (Scalar × Data)) × List Event :=
  mergeLayers format disk [] (Scope.all.map files.path)

/-- The name of the setting that decides whether separators are unified. -/
def unifyingSetting : Text := "normalize_paths"

/-- What the environment says about settings. -/
structure Environment where
  /-- Whether separators are unified. -/
  unifying : Option Text := none
  /-- The project's root. -/
  root : Option Text := none
  /-- The user's home directory. -/
  home : Text := []

/-- Entries with those of overrides in their place; an override that is nothing counts for
nothing. -/
def overridden (es : List (Scalar × Data)) (overrides : List (Text × Data)) :
    List (Scalar × Data) :=
  overrides.foldl
    (fun es (key, d) =>
      match d with
      | .scalar .null => es
      | d => Entries.putBy Scalar.sameKey (.text key) d es) es

/-- Entries with the environment's word on separators, if they have none of their own. -/
def withUnifying (environment : Environment) (es : List (Scalar × Data)) : List (Scalar × Data) :=
  if (Entries.getBy? Scalar.sameKey (.text unifyingSetting) es).isNone
      && environment.unifying = some "false" then
    es ++ [(.text unifyingSetting, .boolean false)]
  else es

/-- The settings that entries make, seen from the working directory. -/
def check (schema : Schema) (environment : Environment) (cwd : Text) (es : List (Scalar × Data)) :
    Except Failure Settings :=
  if es.all fun e => e.1 matches .text _ then
    (Settings.ofData schema cwd environment.root (.map es)).mapError .invalid
  else .error .wrongKind

/-- The settings of the files laid over each other and of overrides laid over them, and what
happened. -/
def settings (files : SettingsFiles) (format : DocumentFormat) (schema : Schema) (disk : Disk)
    (environment : Environment) (overrides : List (Text × Data)) :
    Except Failure Settings × List Event :=
  let (es, events) := files.merged format disk
  (es.bind fun es =>
      check schema environment disk.cwdPath (withUnifying environment (overridden es overrides)),
    events)

/-- The entries that an update of a document starts from: a file that is missing has none. -/
def updatable : Contents → Except Failure (List (Scalar × Data))
  | .absent => .ok []
  | .malformed _ => .error .malformed
  | .document (.map es) => .ok es
  | .document d => if d.isTrue then .error .wrongKind else .ok []

/-- What comes of writing one setting to the file at a path, whose directory is made if it is
missing, and the disk after that.  Directories stay, even if the file cannot be written; what the
file held is gone before anything is written, so a failure of the writing leaves only what was
written until then. -/
def writeSetting (format : DocumentFormat) (disk : Disk) (path key : Text) (value : Data) :
    Except Failure Unit × Disk :=
  match contents format disk path >>= updatable with
  | .error e => (.error e, disk)
  | .ok es =>
    match disk.tryDirectories (Path.parent path) with
    | (.error e, disk) => (.error (.read e), disk)
    | (.ok (), disk) =>
      let written := format.write (Entries.putBy Scalar.sameKey (.text key) value es)
      match disk.writeText path written.text with
      | .error e => (.error (.read e), disk)
      | .ok disk => (written.outcome, disk)

/-- What comes of writing one setting to the file of the scope with a name, and the disk after
that. -/
def update (files : SettingsFiles) (format : DocumentFormat) (disk : Disk) (scope key : Text)
    (value : Data) : Except Failure Unit × Disk :=
  match Scope.ofName? scope with
  | none => (.error (.unknownKey scope), disk)
  | some scope => writeSetting format disk (files.path scope) key value

end SettingsFiles

end StyleImport
