/-
The command line.

A command line is read from its first word on: the options of the program, the name of a command,
and what that command is given.  The journal is started as soon as the command is known.  What a
command prints and what it does to the disk is its outcome; nothing here touches a real disk.

* `Shell.run` — the outcome of a command line.
-/
import StyleImport.Command.Reading
import StyleImport.Console.Table
import StyleImport.Import.Resolve
import StyleImport.Import.Trace
import StyleImport.Journal.Sink
import StyleImport.Settings.Scopes
import StyleImport.Yaml.Format

namespace StyleImport

/-- What a command line leads to. -/
structure Outcome where
  /-- The exit code. -/
  exit : Nat := 0
  /-- What is printed. -/
  out : Text := []
  /-- What is printed about errors. -/
  err : Text := []
  /-- The failure that ended the command, if nobody was there to explain it. -/
  failure : Option Failure := none

namespace Outcome

/-- An outcome that prints markup. -/
def printed (markup : Text) : Outcome := { out := Console.print markup }

/-- An outcome that explains an error in markup. -/
def explained (markup : Text) : Outcome := { exit := 1, err := Console.print markup }

/-- An outcome of a failure. -/
def failed (e : Failure) : Outcome := { exit := 1, failure := some e }

/-- An outcome of a fault in the command line. -/
def misused (form : CommandForm) (fault : UsageFault) : Outcome :=
  { exit := 2, err := fault.shown form }

/-- One outcome's output and then another's. -/
def andThen (a b : Outcome) : Outcome := { b with out := a.out ++ b.out, err := a.err ++ b.err }

end Outcome

/-- What a command line runs on. -/
structure Shell where
  /-- What the environment says. -/
  environment : SettingsFiles.Environment
  /-- The time of records in the journal. -/
  time : Text
  /-- The disk. -/
  disk : Disk
  /-- The format of settings files and of values in words. -/
  format : DocumentFormat := Yaml.format
  /-- The check of settings. -/
  schema : Schema := Fields.ofData
  /-- The journal. -/
  journal : Journal := {}
  /-- The paths that the outcome depends on. -/
  asked : List Text := []
  /-- The paths that may have been written to. -/
  written : List Text := []

namespace Shell

/-- The shell after events. -/
def note (s : Shell) (events : List Event) : Shell :=
  { s with disk := s.journal.logAll s.time s.disk events }

/-- The shell after paths that matter. -/
def ask (s : Shell) (paths : List Text) : Shell := { s with asked := s.asked ++ paths }

/-- The settings files of a project directory; an empty one or none is the working directory. -/
def settingsFiles (s : Shell) (project : Option Text) : SettingsFiles :=
  .usual (SettingsFiles.homeDirectory s.environment.home)
    (match project with
      | some (c :: cs) => Path.collapse (c :: cs)
      | _ => s.disk.cwdPath)

/-- A list of texts as an override of a setting; no texts are no override. -/
def listOverride (ts : List Text) : Data :=
  if ts = [] then .null else .list (ts.map Data.text)

/-- The settings that a resolution is given. -/
def overrides (g : Given) : List (Text × Data) :=
  [("root", ((g.value? "--root").map Data.text).getD .null),
    ("include_paths", listOverride (g.values "--include-path")),
    ("fs_sandbox", listOverride (g.values "--sandbox"))]

/-- The event that the sandbox does not admit a path. -/
def rejected (path : Text) (roots : List Text) : Event :=
  .detail .sandbox
    ("[sandbox] rejected " ++ path ++ " (roots: " ++ Text.joinWith [',', ' '] roots ++ ")")

/-- The roots of a sandbox that does not admit the file of an import; registrations are no files. -/
def rejectingRoots (s : Shell) (settings : Settings) (file : Text) : Option (List Text) :=
  match settings.sandbox s.disk.cwdPath with
  | .roots roots =>
    if Path.isAbsolute file && !(Sandbox.roots roots).permits s.disk.cwdPath file then some roots
    else none
  | .unrestricted => none

/-- What is printed about an import. -/
def shownImport (s : Shell) (settings : Settings) (showContents : Bool) (r : Resolved) :
    Outcome × Shell :=
  let file := Outcome.printed ("[cyan]" ++ Markup.escape r.file ++ "[/cyan]")
  let (outcome, s) := match s.rejectingRoots settings r.file with
    | some roots =>
      (file.andThen (.printed "[yellow]outside the filesystem sandbox[/yellow]"),
        s.note [rejected r.file roots])
    | none => (file, s)
  let outcome :=
    if r.alreadyImported then outcome.andThen (.printed "[dim]already imported[/dim]")
    else outcome
  (if showContents then outcome.andThen (.printed (Markup.escape r.contents)) else outcome, s)

/-- What is printed about an error that imports promise. -/
def explain (e : ImportError) : Outcome :=
  .explained ("[red]" ++ e.label ++ ":[/red] "
    ++ Markup.escape (shownMessage false e.className e.message))

/-- Resolving an identifier. -/
def resolve (s : Shell) (g : Given) : Outcome × Shell :=
  let files := s.settingsFiles (g.value? "--root")
  let (settings, events) := files.settings s.format s.schema s.disk s.environment (overrides g)
  let s := (s.ask (Scope.all.map files.path)).note events
  match settings with
  | .error e => (.failed e, s)
  | .ok settings =>
    let importer : Importer :=
      { cwd := s.disk.cwdPath, settings, unified := settings.unified s.environment.unifying }
    let world : World :=
      { disk := s.disk, registry := .ofRecordsAndDisk settings.moduleRecords }
    let plan := importer.resolve (g.word 0) ((g.value? "--from").getD "stdin")
    let (result, compilation) := plan.run world.compilation
    let s := (s.ask (plan.asked world.compilation)).note compilation.state.events
    match result with
    | .ok r => s.shownImport settings (g.has "--show-contents") r
    | .error (.promised e) => (explain e, s)
    | .error e => (.failed e, s)

/-- Whether each path leads to a file. -/
def presence (disk : Disk) : List Text → Except Failure (List Bool)
  | [] => .ok []
  | p :: ps => do
    let isFile ← (disk.isFileOrFail (Path.collapse p)).mapError .read
    return isFile :: (← presence disk ps)

/-- The table of the candidates for a name. -/
def candidateTable (name : Text) (candidates : List (Text × Bool)) : Table :=
  { title := "Candidates for " ++ Markup.escape name
    columns :=
      [{ head := "#", atRight := true }, { head := "Path" }, { head := "Exists" }]
    rows := candidates.mapIdx fun n (path, isFile) =>
      [Text.ofNat (n + 1), Markup.escape path, if isFile then "yes" else ""] }

/-- Expanding a name to its candidates. -/
def expand (s : Shell) (g : Given) : Outcome × Shell :=
  let cwd := s.disk.cwdPath
  let unified := Spelling.isUnified none s.environment.unifying
  let form := NameForm.of unified defaultExtensions (g.word 0)
  let locations := (g.values "--location").map (Path.fromRoot cwd)
  let paths := (form.candidates cwd locations).paths
  let s := s.ask paths
  match presence s.disk paths with
  | .error e => (.failed e, s)
  | .ok found => ({ out := (candidateTable (g.word 0) (paths.zip found)).print }, s)

/-- The complaint about the value of a key, if there is one. -/
def complaint? (s : Shell) (key : Text) (value : Data) : Option Text :=
  match Settings.ofData s.schema s.disk.cwdPath s.environment.root (.map [(.text key, value)]) with
  | .error (c :: _) => some c.expected.complaint
  | _ => none

/-- Setting a key to a document. -/
def setKey (s : Shell) (g : Given) (key : Text) (value : Data) : Outcome × Shell :=
  let scope := (g.value? "--scope").getD Scope.project.name
  let files := s.settingsFiles (g.value? "--project-dir")
  let s := s.ask (Scope.all.map files.path)
  match files.update s.format s.disk scope key value with
  | (.error e, disk) => (.failed e, { s with disk })
  | (.ok (), disk) =>
    (.printed ("[green]✓ Set " ++ Markup.escape key ++ " in " ++ scope ++ " settings[/green]"),
      { s with disk, written := s.written ++ Scope.all.map files.path })

/-- Setting a key to a value in words. -/
def set (s : Shell) (g : Given) : Outcome × Shell :=
  let key := g.word 0
  if !Settings.names.contains key then
    (.explained ("[red]Unknown setting:[/red] " ++ Markup.escape key), s)
  else match s.format.read (g.word 1) with
    | .error _ => (.failed .malformed, s)
    | .ok value =>
      match s.complaint? key value with
      | some complaint =>
        (.explained ("[red]Invalid value for " ++ Markup.escape key ++ ":[/red] "
          ++ Markup.escape complaint), s)
      | none => s.setKey g key value

/-- Showing the settings. -/
def show_ (s : Shell) (g : Given) : Outcome × Shell :=
  let files := s.settingsFiles (g.value? "--project-dir")
  let (merged, events) := files.merged s.format s.disk
  let s := (s.ask (Scope.all.map files.path)).note events
  match merged with
  | .error e => (.failed e, s)
  | .ok [] => (.printed "[dim]No settings[/dim]", s)
  | .ok es =>
    match s.format.write es with
    | { failure := some e, .. } => (.failed e, s)
    | { text, failure := none } => (.printed (Markup.escape text), s)

/-- What words give to a command, unless they are at fault or call for help. -/
def given (s : Shell) (form : CommandForm) (words : List Text) : Except Outcome Given :=
  match Given.read form words with
  | .error fault => .error (.misused form fault)
  | .ok g =>
    if g.has helpOption.name then .error { out := form.help }
    else match g.check form s.disk with
      | .error e => .error (.failed e)
      | .ok (some fault) => .error (.misused form fault)
      | .ok none => .ok g

/-- A command without commands below it, on words. -/
def runLeaf (s : Shell) (form : CommandForm) (command : Shell → Given → Outcome × Shell)
    (words : List Text) : Outcome × Shell :=
  match s.given form words with
  | .error outcome => (outcome, s)
  | .ok g => command s g

/-- The outcome of an unknown command.  Its name may be an option that two hyphens hid, so the words
are read once more for faults and calls for help. -/
def unknown (s : Shell) (form : CommandForm) (name : Text) (words : List Text) : Outcome :=
  match s.given form (name :: words) with
  | .error outcome => outcome
  | .ok _ =>
    .misused form (.unknownCommand name (Text.similar name (form.commands.map (·.1))))

/-- The commands on settings. -/
def config (s : Shell) (words : List Text) : Outcome × Shell :=
  if words = [] then ({ exit := 2, err := CommandForm.config.help }, s)
  else match s.given .config words with
    | .error outcome => (outcome, s)
    | .ok g =>
      match g.words with
      | [] => (.misused .config .commandMissing, s)
      | name :: words =>
        if name = "set" then s.runLeaf .configSet set words
        else if name = "show" then s.runLeaf .configShow show_ words
        else (s.unknown .config name words, s)

/-- The command with a name. -/
def command? (name : Text) : Option (Shell → List Text → Outcome × Shell) :=
  if name = "resolve" then some fun s => s.runLeaf .resolve resolve
  else if name = "expand" then some fun s => s.runLeaf .expand expand
  else if name = "config" then some config
  else none

/-- What comes of starting the journal that the options ask for, and the shell after that. -/
def startJournal (s : Shell) (g : Given) : Except Failure Unit × Shell :=
  match g.value? "--log-file" with
  | some (c :: cs) =>
    match s.journal.start (some (c :: cs)) (g.value? "--log-level") s.disk with
    | (.error e, journal, disk) => (.error e, { s with disk, journal })
    | (.ok (), journal, disk) =>
      (.ok (), { s with disk, journal, asked := s.asked ++ journal.sinks
                        written := s.written ++ journal.sinks })
  | _ => (.ok (), s)

/-- A command on words, with a journal as the options ask for it. -/
def runWithJournal (s : Shell) (g : Given) (command : Shell → Outcome × Shell) : Outcome × Shell :=
  match s.startJournal g with
  | (.error e, s) => (.failed e, s)
  | (.ok (), s) => command s

/-- The outcome of a command line. -/
def run (s : Shell) (words : List Text) : Outcome × Shell :=
  match s.given .top words with
  | .error outcome => (outcome, s)
  | .ok g =>
    match g.words with
    | [] => s.runWithJournal g fun s => ({ out := CommandForm.top.help }, s)
    | name :: words =>
      match command? name with
      | some command => s.runWithJournal g fun s => command s words
      | none => (s.unknown .top name words, s)

end Shell

end StyleImport
