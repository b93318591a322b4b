/-
What the commands of the command line look like.

A form lists the options and positional arguments of a command, with what its help says about them.

* `CommandForm.help` — the help of a command.
-/
import StyleImport.Text.Basic

namespace StyleImport

/-- What the value of an option may be. -/
inductive ValueKind where
  /-- Any text. -/
  | text
  /-- The path of a directory, or of nothing yet. -/
  | directory
  /-- The path of a file, or of nothing yet. -/
  | file
  /-- One of some words. -/
  | choice (words : List Text)
  deriving DecidableEq, Repr

/-- What stands for a value in the help of a command. -/
def ValueKind.shown : ValueKind → Text
  | .text => "TEXT"
  | .directory => "DIRECTORY"
  | .file => "FILE"
  | .choice words => '[' :: Text.joinWith ['|'] words ++ [']']

/-- An option of a command. -/
structure CommandOption where
  /-- Its name, with two hyphens in front. -/
  name : Text
  /-- What its value may be; a switch has none. -/
  value : Option ValueKind
  /-- Whether it must be given. -/
  isRequired : Bool := false
  /-- What the help says about it. -/
  about : Text
  deriving DecidableEq, Repr

/-- A command. -/
structure CommandForm where
  /-- The words that it is called by. -/
  path : Text
  /-- What the help says about it. -/
  about : Text
  /-- Its options. -/
  options : List CommandOption
  /-- The names of its positional arguments. -/
  places : List Text := []
  /-- What the usage says about the commands below it. -/
  commandPlaces : List Text := []
  /-- The commands below it, and what the help says about them. -/
  commands : List (Text × Text) := []

/-- The option that asks for help; every command has it. -/
def helpOption : CommandOption :=
  { name := "--help", value := none, about := "Show this message and exit." }

namespace CommandForm

/-- The options of a command, the one for help included. -/
def allOptions (form : CommandForm) : List CommandOption := form.options ++ [helpOption]

/-- Whether a command has commands below it. -/
def isGroup (form : CommandForm) : Bool := !form.commands.isEmpty

/-- The line that says how a command is used. -/
def usage (form : CommandForm) : Text :=
  Text.joinWith [' ']
    (("Usage:" : Text) :: form.path :: "[OPTIONS]" :: form.places ++ form.commandPlaces)

/-- An option as the help shows it. -/
def shownOption (o : CommandOption) : Text :=
  match o.value with
  | some kind => o.name ++ ' ' :: kind.shown
  | none => o.name

/-- What the help says about an option. -/
def aboutOption (o : CommandOption) : Text :=
  if o.isRequired then o.about ++ "  [required]" else o.about

/-- Rows of two columns under a heading. -/
def section_ (heading : Text) (rows : List (Text × Text)) : Text :=
  let width := (rows.map (·.1.length)).foldl max 0 + 2
  '\n' :: heading ++ ":\n"
    ++ rows.flatMap fun (name, about) =>
      ' ' :: ' ' :: Text.padRight width ' ' name ++ about ++ ['\n']

/-- The help of a command. -/
def help (form : CommandForm) : Text :=
  form.usage ++ "\n\n  " ++ form.about ++ ['\n']
    ++ section_ "Options" (form.allOptions.map fun o => (shownOption o, aboutOption o))
    ++ (if form.isGroup then section_ "Commands" form.commands else [])

end CommandForm

namespace CommandForm

/-- The name of the program. -/
def program : Text := "stylepath"

/-- What the help says about resolving. -/
def aboutResolve : Text := "Resolve IDENTIFIER as if imported from --from."

/-- What the help says about expanding. -/
def aboutExpand : Text := "List candidate files for NAME in priority order."

/-- What the help says about settings. -/
def aboutConfig : Text := "Read and write settings (global, project, local scopes)."

/-- What the help says about setting a key. -/
def aboutSet : Text := "Set KEY to VALUE (parsed as YAML) in one settings scope."

/-- What the help says about showing settings. -/
def aboutShow : Text := "Print the merged settings."

/-- The option for a project directory. -/
def projectOption : CommandOption :=
  { name := "--project-dir", value := some .directory, about := "Project directory (default: CWD)" }

/-- The program itself. -/
def top : CommandForm where
  path := program
  about := "Resolve stylesheet import identifiers to files on disk."
  options :=
    [{ name := "--log-file", value := some .file, about := "Write JSONL logs to this file" },
      { name := "--log-level", value := some .text
        about := "Log level for --log-file (default: INFO)" }]
  commandPlaces := ["[COMMAND]", "[ARGS]..."]
  commands := [("config", aboutConfig), ("expand", aboutExpand), ("resolve", aboutResolve)]

/-- Resolving an identifier. -/
def resolve : CommandForm where
  path := program ++ " resolve"
  about := aboutResolve
  options :=
    [{ name := "--from", value := some .text, about := "Path of the requesting stylesheet" },
      { name := "--root", value := some .directory, about := "Project root (default: CWD)" },
      { name := "--include-path", value := some .text
        about := "Extra search directory (repeatable)" },
      { name := "--sandbox", value := some .text
        about := "Sandbox root for filesystem functions (repeatable)" },
      { name := "--show-contents", value := none, about := "Print the resolved file contents" }]
  places := ["IDENTIFIER"]

/-- Expanding a name to its candidates. -/
def expand : CommandForm where
  path := program ++ " expand"
  about := aboutExpand
  options :=
    [{ name := "--location", value := some .text, isRequired := true
       about := "Base directory (repeatable, in priority order)" }]
  places := ["NAME"]

/-- The commands on settings. -/
def config : CommandForm where
  path := program ++ " config"
  about := aboutConfig
  options := []
  commandPlaces := ["COMMAND", "[ARGS]..."]
  commands := [("set", aboutSet), ("show", aboutShow)]

/-- Setting a key. -/
def configSet : CommandForm where
  path := program ++ " config set"
  about := aboutSet
  options :=
    [{ name := "--scope", value := some (.choice ["local", "project", "global"])
       about := "Settings file to write (default: project)" },
      projectOption]
  places := ["KEY", "VALUE"]

/-- Showing the settings. -/
def configShow : CommandForm where
  path := program ++ " config show"
  about := aboutShow
  options := [projectOption]

end CommandForm

end StyleImport
