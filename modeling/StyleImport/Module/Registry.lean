/-
Where module records come from.

* `declared` records are listed by name;
* `installed` modules are found on disk: the directories above the place of the import are searched,
  the nearest first, for `node_modules/<name>/package.json`, and that file says where the
  stylesheets are;
* a `chain` of registries gives the first answer that one of them has.

`Registry.lookup` returns the answer together with the registry as it is afterwards: an installed
module's record is kept by the path of its file once it has been read, and a file that could not be
read is tried again.
-/
import StyleImport.Disk.Lookup
import StyleImport.Journal.Event
import StyleImport.Json.Reader
import StyleImport.Module.Record
import StyleImport.Settings.Checked

namespace StyleImport

/-- The name of the file that describes an installed module. -/
def metadataName : Text := "package.json"

/-- The name of the directory that modules are installed in. -/
def installedName : Text := "node_modules"

namespace ModuleRecord

/-- The first of the documents that is neither missing nor empty nor false. -/
def firstTrue (ds : List (Option Data)) : Option Data := (ds.filterMap id).find? Data.isTrue

/-- A path in a module's metadata, seen from the module's directory. -/
def pathIn (dir : Text) : Option Data → Except Failure (Option Text)
  | none => .ok none
  | some (.scalar (.text t)) => .ok (some (Path.collapse (Path.normalize (Path.append dir t))))
  | some _ => .error .wrongKind

/-- The name in a module's metadata, or else the name that was asked for. -/
def nameIn (asked : Text) : Option Data → Except Failure Text
  | none => .ok asked
  | some d => ((Checked.text d).mapError fun cs =>
      .invalid (cs.map fun c => { c with place := ['n', 'a', 'm', 'e'] :: c.place }))

/-- The record that a module's metadata describes.  `file` is the path of the metadata. -/
def ofMetadata (asked file : Text) (metadata : Data) : Except Failure ModuleRecord := do
  match metadata with
  | .map _ =>
    let options := firstTrue [metadata.get? "stylepath"]
    let option (key : Text) : Option Data := options.bind (Data.get? key)
    let dir := Path.parent file
    let stylesheetDir ← pathIn dir (firstTrue [option "stylesheetDir", option "sassDir"])
    let mainPath ← pathIn dir (firstTrue [option "main", metadata.get? "main"])
    let name ← nameIn asked (firstTrue [metadata.get? "name"])
    return { name, stylesheetDir, mainPath, metadataFile := some file }
  | _ => throw .notAMap

end ModuleRecord

/-- Where module records come from. -/
inductive Registry where
  /-- Records by name. -/
  | declared (records : List (Text × ModuleRecord))
  /-- Modules on disk, searched no further up than `stopAt`; the records read so far by the paths of
  their files. -/
  | installed (stopAt : Option Text) (known : List (Text × ModuleRecord))
  /-- The first answer of several. -/
  | chain (registries : List Registry)
  deriving Repr, Inhabited

namespace Registry

/-- The registry of a list of records; a later record takes the place of an earlier one of its
name. -/
def ofRecords (records : List ModuleRecord) : Registry :=
  .declared (records.foldl (fun es r => Entries.put r.name r es) [])

/-- The registry with one more declared record; only declared records can be added to. -/
def add (r : ModuleRecord) : Registry → Registry
  | .declared records => .declared (Entries.put r.name r records)
  | registry => registry

/-- The path of the file that describes a module installed in a directory. -/
def metadataPath (name dir : Text) : Text :=
  Path.append (Path.append (Path.append dir installedName) name) metadataName

/-- The first of the directories that holds a module, as the path of its file; the search ends after
the directory `stopAt`. -/
def findInstalled (d : Disk) (stopAt : Option Text) (name : Text) :
    List Text → Except Failure (Option Text)
  | [] => .ok none
  | dir :: dirs =>
    match d.isFileOrFail (metadataPath name dir) with
    | .error e => .error (.read e)
    | .ok true => .ok (some (metadataPath name dir))
    | .ok false => if stopAt = some dir then .ok none else findInstalled d stopAt name dirs

/-- The directories to search from a place: the directory of a file, or the directory itself, and
everything above. -/
def searchPath (d : Disk) (context : Text) : Except Failure (List Text) :=
  let place := Path.fromRoot d.cwdPath context
  match d.isFileOrFail place with
  | .error e => .error (.read e)
  | .ok isFile => .ok (Path.ancestors (if isFile then Path.parent place else place))

/-- Why a module's metadata could not be read, if that is no more than a missing answer. -/
def unreadableMetadata (file why : Text) : Event :=
  ⟨.registry, Level.warning, "Failed to read " ++ file ++ ": " ++ why⟩

/-- The record in a file of metadata; none, with a warning, if the file cannot be read or holds no
JSON.  An integer of too many digits is no fault of the JSON. -/
def readMetadata (d : Disk) (name file : Text) :
    Except Failure (Option ModuleRecord) × List Event :=
  match d.readText file with
  | .error (.system e) => (.ok none, [unreadableMetadata file e.message])
  | .error e => (.error (.read e), [])
  | .ok t =>
    match Json.read t with
    | .error ⟨.tooManyDigits digits, _⟩ =>
      (.error (.badValue (Json.Problem.tooManyDigits digits).message), [])
    | .error fault => (.ok none, [unreadableMetadata file (fault.message t)])
    | .ok metadata => ((ModuleRecord.ofMetadata name file metadata).map some, [])

/-- The record of an installed module, the records that are known afterwards, and what happened. -/
def lookupInstalled (d : Disk) (stopAt : Option Text) (known : List (Text × ModuleRecord))
    (name context : Text) :
    Except Failure (Option ModuleRecord) × List (Text × ModuleRecord) × List Event :=
  match searchPath d context >>= findInstalled d stopAt name with
  | .error e => (.error e, known, [])
  | .ok none =>
    (.ok none, known,
      [.detail .registry ("[module:lookup] " ++ name ++ " not found from " ++ context)])
  | .ok (some file) =>
    let found := Event.detail .registry ("[module:lookup] " ++ name ++ " -> " ++ file)
    match Entries.get? file known with
    | some r => (.ok (some r), known, [found])
    | none =>
      match readMetadata d name file with
      | (.ok (some r), events) => (.ok (some r), Entries.put file r known, found :: events)
      | (answer, events) => (answer, known, found :: events)

mutual

/-- The record of a module seen from a place, the registry as it is afterwards, and
what happened. -/
def lookup (d : Disk) (name context : Text) :
    Registry → Except Failure (Option ModuleRecord) × Registry × List Event
  | .declared records => (.ok (Entries.get? name records), .declared records, [])
  | .installed stopAt known =>
    let (answer, known, events) := lookupInstalled d stopAt known name context
    (answer, .installed stopAt known, events)
  | .chain registries =>
    let (answer, registries, events) := lookupAny d name context registries
    (answer, .chain registries, events)

/-- The first answer of several registries. -/
def lookupAny (d : Disk) (name context : Text) :
    List Registry → Except Failure (Option ModuleRecord) × List Registry × List Event
  | [] => (.ok none, [], [])
  | r :: rs =>
    match lookup d name context r with
    | (.ok none, r, events) =>
      let (answer, rs, more) := lookupAny d name context rs
      (answer, r :: rs, events ++ more)
    | (answer, r, events) => (answer, r :: rs, events)

end

mutual

/-- A registry as it is shown. -/
def shown : Registry → Text
  | .declared records =>
    "StaticModuleRegistry(" ++ Text.quotedList ((records.map (·.1)).mergeSort Text.le) ++ ")"
  | .installed .. => "NodeModulesRegistry()"
  | .chain registries =>
    "ChainedModuleRegistry([" ++ Text.joinWith [',', ' '] (shownAll registries) ++ "])"

/-- Registries as they are shown. -/
def shownAll : List Registry → List Text
  | [] => []
  | r :: rs => shown r :: shownAll rs

end

end Registry

end StyleImport
