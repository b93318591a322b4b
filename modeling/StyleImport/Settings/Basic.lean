/-
The settings of a compilation.

`Fields.ofData` checks a document and finds out what it says of each setting: unknown keys are
ignored, and every value of the wrong shape is complained about in the order of the fields.  Any
other such check may stand in its place: settings are made of what it finds, with a default for a
setting that the document says nothing of.

* `Settings.ofData` — the settings of a document that is checked;
* `Settings.sandbox` — the sandbox that the settings describe;
* `Settings.moduleRecords` — the modules that the settings declare.
-/
import StyleImport.Candidates
import StyleImport.Module.Record
import StyleImport.Sandbox
import StyleImport.Settings.Checked

namespace StyleImport

/-- What the settings say about the sandbox of the file queries. -/
inductive SandboxSetting where
  /-- Off: everything is admitted. -/
  | off
  /-- Only the project's root. -/
  | rootOnly
  /-- Only these directories, relative ones seen from the root. -/
  | directories (paths : List Text)
  deriving DecidableEq, Repr

/-- A module that the settings declare. -/
structure ModuleDeclaration where
  /-- The directory of its stylesheets, seen from the root. -/
  stylesheetDir : Option Text := none
  /-- Its entry file, seen from the root. -/
  main : Option Text := none
  deriving DecidableEq, Repr

/-- What a document says of each setting. -/
structure Fields where
  /-- The project's root. -/
  root : Option Text
  /-- The directories that are searched after the place of the import. -/
  includePaths : Option (List Text)
  /-- The sandbox. -/
  fsSandbox : Option SandboxSetting
  /-- Whether separators are unified, if that is to be said. -/
  normalizePaths : Option (Option Bool)
  /-- Whether a second import of a file is marked. -/
  enableImportOnce : Option Bool
  /-- The extensions of stylesheets, with or without their dots. -/
  extensions : Option (List Text)
  /-- The declared modules by name. -/
  modules : Option (List (Text × ModuleDeclaration))
  deriving DecidableEq, Repr

/-- A way to check documents, which finds out what they say of each setting. -/
abbrev Schema : Type := Data → Checked Fields

/-- The settings of a compilation. -/
structure Settings where
  /-- The project's root. -/
  root : Text
  /-- Directories that are searched after the place of the import. -/
  includePaths : List Text := []
  /-- The sandbox. -/
  fsSandbox : SandboxSetting := .off
  /-- Whether separators are unified, if the settings say. -/
  normalizePaths : Option Bool := none
  /-- Whether a second import of a file is marked. -/
  enableImportOnce : Bool := false
  /-- The extensions of stylesheets, each with its dot. -/
  extensions : List Text := defaultExtensions
  /-- The declared modules by name. -/
  modules : List (Text × ModuleDeclaration) := []
  deriving DecidableEq, Repr

namespace Fields

/-- The check of a setting: a document may say nothing of it. -/
def checkField {α : Type} (key : Text) (check : Data → Checked α) (d : Data) : Checked (Option α) :=
  Checked.field key none (fun v => (check v).map some) d

/-- The check of a sandbox: a truth value or a list of directories. -/
def checkSandbox (d : Data) : Checked SandboxSetting :=
  Checked.orElse "bool" ((Checked.boolean d).map fun b => if b then .rootOnly else .off)
    "list" ((Checked.listOf Checked.path d).map .directories)

/-- The check of a text that may be left out. -/
def checkOptionalText (key : Text) (d : Data) : Checked (Option Text) :=
  Checked.field key none (Checked.optional Checked.text) d

/-- The check of a module declaration. -/
def checkDeclaration (d : Data) : Checked ModuleDeclaration :=
  match d with
  | .map _ =>
    (Checked.both (checkOptionalText "stylesheet_dir" d) (checkOptionalText "main" d)).map
      fun (stylesheetDir, main) => { stylesheetDir, main }
  | _ => Checked.fail .declaration

/-- What a document says of each setting. -/
def ofData : Schema := fun d =>
  let root := checkField "root" Checked.path d
  let includePaths := checkField "include_paths" (Checked.listOf Checked.path) d
  let fsSandbox := checkField "fs_sandbox" checkSandbox d
  let normalizePaths := checkField "normalize_paths" (Checked.optional Checked.boolean) d
  let enableImportOnce := checkField "enable_import_once" Checked.boolean d
  let extensions := checkField "extensions" (Checked.listOf Checked.text) d
  let modules := checkField "modules" (Checked.mapOf checkDeclaration) d
  match root, includePaths, fsSandbox, normalizePaths, enableImportOnce, extensions, modules with
  | .ok root, .ok includePaths, .ok fsSandbox, .ok normalizePaths, .ok enableImportOnce,
    .ok extensions, .ok modules =>
    .ok { root, includePaths, fsSandbox, normalizePaths, enableImportOnce, extensions, modules }
  | _, _, _, _, _, _, _ =>
    .error (Checked.complaints root ++ Checked.complaints includePaths
      ++ Checked.complaints fsSandbox ++ Checked.complaints normalizePaths
      ++ Checked.complaints enableImportOnce ++ Checked.complaints extensions
      ++ Checked.complaints modules)

end Fields

namespace Settings

/-- The names of the settings. -/
def names : List Text :=
  ["root", "include_paths", "fs_sandbox", "normalize_paths", "enable_import_once", "extensions",
    "modules"]

/-- A root given in the settings: absolute and in normal form. -/
def absoluteRoot (cwd p : Text) : Text :=
  Path.collapse (Path.normalize (Path.fromRoot cwd p))

/-- The root where the settings give none: the one that the environment names, or the working
directory. -/
def defaultRoot (cwd : Text) (setting : Option Text) : Text :=
  match setting with
  | some (c :: cs) => Path.collapse (c :: cs)
  | _ => cwd

/-- An extension with its dot. -/
def withDot (ext : Text) : Text := if ext.head? = some '.' then ext else '.' :: ext

/-- The settings that come of what a document says, seen from the working directory, with the root
that the environment names. -/
def ofFields (cwd : Text) (rootSetting : Option Text) (f : Fields) : Settings where
  root := (f.root.map (absoluteRoot cwd)).getD (defaultRoot cwd rootSetting)
  includePaths := f.includePaths.getD []
  fsSandbox := f.fsSandbox.getD .off
  normalizePaths := f.normalizePaths.getD none
  enableImportOnce := f.enableImportOnce.getD false
  extensions := (f.extensions.map (·.map withDot)).getD defaultExtensions
  modules := f.modules.getD []

/-- The settings of a document that is checked. -/
def ofData (schema : Schema) (cwd : Text) (rootSetting : Option Text) (d : Data) :
    Checked Settings :=
  (schema d).map (ofFields cwd rootSetting)

/-- The sandbox that the settings describe. -/
def sandbox (cwd : Text) (s : Settings) : Sandbox :=
  match s.fsSandbox with
  | .off => .unrestricted
  | .rootOnly => .ofRoots cwd [s.root]
  | .directories paths => .ofRoots cwd (paths.map (Path.append s.root))

/-- A declared path seen from the root; an empty one is none. -/
def declaredPath (s : Settings) (p : Option Text) : Option Text :=
  (p.filter (· ≠ [])).map (Path.append s.root)

/-- The records of the declared modules. -/
def moduleRecords (s : Settings) : List ModuleRecord :=
  s.modules.map fun (name, declared) =>
    { name, stylesheetDir := s.declaredPath declared.stylesheetDir
      mainPath := s.declaredPath declared.main }

/-- Whether separators are unified: as the settings say, or else as the environment does. -/
def unified (s : Settings) (setting : Option Text) : Bool :=
  Spelling.isUnified s.normalizePaths setting

end Settings

end StyleImport
