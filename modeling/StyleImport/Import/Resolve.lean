/-
Resolving imports.

An import is resolved by the first of three that has an answer: a registration `fs(token)`; a file
in the stylesheet directory of the identifier's module; a file next to the requesting file or, for
identifiers without such a module, in an include path.  On every miss the host's own resolver is
asked.

* `Importer.moduleCandidates`, `Importer.relativeCandidates` — the paths that are tried, in order;
* `Importer.resolveModule` — modules and directories;
* `Importer.resolve` — registrations first.
-/
import StyleImport.Import.Locate
import StyleImport.Import.Registration
import StyleImport.Settings.Basic

namespace StyleImport

/-- What resolving imports depends on besides the session and the host. -/
structure Importer where
  /-- The working directory. -/
  cwd : Text
  /-- The settings. -/
  settings : Settings
  /-- Whether separators are unified. -/
  unified : Bool

namespace Importer

/-- The candidates for a name below each location. -/
def candidates (i : Importer) (name : Text) (locations : List Text) : List Text :=
  ((NameForm.of i.unified i.settings.extensions name).candidates i.cwd locations).paths

/-- The locations of a module's files: its stylesheet directory and the directory of its own name
in there. -/
def moduleLocations (dir name : Text) : List Text :=
  dir :: if name = [] then [] else [Path.join dir name]

/-- The candidates for a path inside a module. -/
def moduleCandidates (i : Importer) (dir name path : Text) : List Text :=
  i.candidates path (moduleLocations dir name)

/-- The directory from which an identifier is looked up: the one of the requesting file, or the
root. -/
def base (i : Importer) (l : Located) : Text :=
  if l.isRealFile then Path.directory l.contextPath else i.settings.root

/-- The include paths, seen from a directory. -/
def includeLocations (i : Importer) (location : Text) : List Text :=
  i.settings.includePaths.map fun p => Path.absolute i.cwd (Path.join location p)

/-- The candidates for an identifier that is looked up as a path, with or without the include
paths. -/
def relativeCandidates (i : Importer) (l : Located) (withIncludes : Bool) : List Text :=
  i.candidates l.identifier
    (i.base l :: if withIncludes then i.includeLocations (i.base l) else [])

/-- Reading a candidate; one that vanished or is a directory is none, and any other failure ends the
resolution. -/
def readCandidate (path : Text) : Plan (Option Text) :=
  .read path fun
    | .ok contents => .done (some contents)
    | .error (.system e) =>
      if e.isMissing then .done none else .fail (.promised (.unreadable path (.system e)))
    | .error (.undecodable f) => .fail (.promised (.unreadable path (.undecodable f)))
    | .error .nulInPath => .fail (.read .nulInPath)

/-- One more path that was tried. -/
def addProbed (probed : List Text) (path : Text) : List Text :=
  if probed.contains path then probed else probed ++ [path]

/-- The event that a name was found. -/
def foundEvent (name path : Text) : Event :=
  .detail .moduleImports ("[import:resolve] " ++ name ++ " -> " ++ path)

/-- The first candidate that can be read, and the paths tried so far.  Others may go first after
each look at the disk. -/
def readFirst (name : Text) (probed : List Text) :
    List Text → Plan (Option Resolved × List Text)
  | [] => .done (none, probed)
  | path :: paths =>
    .isFile path fun
      | false => .pause (readFirst name (addProbed probed path) paths)
      | true =>
        .pause ((readCandidate path).bind fun
          | none => readFirst name (addProbed probed path) paths
          | some contents =>
            .note (foundEvent name path)
              (.done (some { contents, file := path }, addProbed probed path)))

/-- A resolved import marked as imported, and as imported before if the settings ask for it. -/
def importOnce (i : Importer) (r : Resolved) : Plan Resolved :=
  .mark r.file fun first =>
    if i.settings.enableImportOnce && !first then
      .note (.detail .session ("[import:once] " ++ r.file ++ " already imported"))
        (.done { r with alreadyImported := true })
    else .done r

/-- The event that somebody else had the answer. -/
def fallbackEvent (identifier resolver : Text) : Event :=
  .detail .session ("[import:fallback] " ++ identifier ++ " resolved by " ++ resolver)

/-- The host's own resolver, or else another plan. -/
def orHost {α : Type} (identifier prev : Text) (wrap : Resolved → α) (onMiss : Plan α) :
    Plan α :=
  .askHost identifier prev fun
    | some r => .note (fallbackEvent identifier "the host") (.done (wrap r))
    | none => onMiss

/-- An identifier looked up as a path. -/
def resolveRelative (i : Importer) (l : Located) (prev : Text) (withIncludes : Bool)
    (probed : List Text) : Plan Resolved :=
  (readFirst l.identifier probed (i.relativeCandidates l withIncludes)).bind
    fun (found, probed) =>
      match found with
      | some r => i.importOnce r
      | none =>
        orHost l.identifier prev id
          (.fail (.promised (.notFound l.identifier probed prev)))

/-- The error about a module without a stylesheet directory. -/
def missingDir (r : ModuleRecord) : ImportError :=
  .noStylesheetDir r.name r.metadataFile r.mainPath

/-- The event that a module has no such file. -/
def notInModuleEvent (identifier dir : Text) : Event :=
  .detail .moduleImports
    ("[import:module] " ++ identifier ++ " not in " ++ dir ++ ", trying relative")

/-- A located identifier looked up in the stylesheet directory of its module, and then as a path. -/
def resolveInModule (i : Importer) (l : Located) (prev dir : Text) : Plan Resolved :=
  (readFirst l.relativePath []
      (i.moduleCandidates dir (l.moduleName.getD []) l.relativePath)).bind
    fun (found, probed) =>
      match found with
      | some r => i.importOnce r
      | none =>
        .note (notInModuleEvent l.identifier dir)
          (orHost l.identifier prev id (i.resolveRelative l prev false probed))

/-- A located identifier looked up. -/
def resolveLocated (i : Importer) (l : Located) (prev : Text) : Plan Resolved :=
  match l.record with
  | none => i.resolveRelative l prev true []
  | some r =>
    match r.stylesheetDir with
    | some dir => i.resolveInModule l prev dir
    | none =>
      if l.isRealFile then i.resolveRelative l prev true []
      else orHost l.identifier prev id (.fail (.promised (missingDir r)))

/-- An import from a module or a directory. -/
def resolveModule (i : Importer) (identifier prev : Text) : Plan Resolved :=
  (Located.locate i.settings.root identifier prev).bind fun l => i.resolveLocated l prev

/-- The directory of the requesting file, or the working directory if that is no file. -/
def requestDirectory (i : Importer) (prev : Text) (isRealFile : Bool) : Text :=
  Path.absolute i.cwd (if isRealFile then Path.directory prev else Path.here)

/-- The import of a registration. -/
def registration (token bound : Text) : Resolved :=
  { contents := Registration.source token bound, file := Registration.file token bound }

/-- A path bound to a token, and the import that says so. -/
def bindToken (i : Importer) (token path : Text) : Plan Resolved :=
  .register token path fun bound =>
    .note (.detail .registrations ("[import:fs] " ++ token ++ " -> " ++ bound))
      (i.importOnce (registration token bound))

/-- A registration: the token for the root binds the root, any other one the directory of the
requesting file. -/
def resolveToken (i : Importer) (token prev : Text) : Plan Resolved :=
  if token = Registration.rootToken then i.bindToken token i.settings.root
  else .isFile prev fun isRealFile => i.bindToken token (i.requestDirectory prev isRealFile)

/-- A registration, or whatever the host's own resolver makes of the identifier. -/
def resolveRegistration (i : Importer) (identifier prev : Text) : Plan (Option Resolved) :=
  match Registration.token? identifier with
  | some token => (i.resolveToken token prev).bind fun r => .done (some r)
  | none => orHost identifier prev some (.done none)

/-- The importer of modules as it is shown. -/
def shownModules (i : Importer) : Text := "ModuleImporter(root=" ++ i.settings.root ++ ")"

/-- The importer of registrations as it is shown. -/
def shownRegistrations (i : Importer) : Text := "FSImporter(root=" ++ i.settings.root ++ ")"

/-- An import: a registration, or one from a module or a directory. -/
def resolve (i : Importer) (identifier prev : Text) : Plan Resolved :=
  match Registration.token? identifier with
  | some token => i.resolveToken token prev
  | none =>
    (i.resolveModule identifier prev).bind fun r =>
      .note (fallbackEvent identifier i.shownModules) (.done r)

end Importer

end StyleImport
