/-
Command lines read by the form of a command.

Options come with their value behind an equals sign or as the next word; two hyphens end them.
Faults in the words come first, then a call for help, then faults in the values: of the options in
the order in which they are given, of the positional arguments, and of the options that are missing.

* `UsageFault` — what is wrong with a command line;
* `Given.read` — what a command is given;
* `Given.check` — the first fault in what it is given.
-/
import StyleImport.Command.Form
import StyleImport.Disk.Lookup
import StyleImport.Text.Similar

namespace StyleImport

/-- What is wrong with a command line. -/
inductive UsageFault where
  /-- There is no such option, but perhaps similar ones. -/
  | unknownOption (name : Text) (similar : List Text)
  /-- There is no such command, but perhaps similar ones. -/
  | unknownCommand (name : Text) (similar : List Text)
  /-- A command has to be given. -/
  | commandMissing
  /-- An option has no value. -/
  | valueMissing (option : Text)
  /-- A switch has a value. -/
  | valueGiven (option : Text)
  /-- A positional argument is missing. -/
  | argumentMissing (name : Text)
  /-- An option is missing. -/
  | optionMissing (name : Text)
  /-- There are more positional arguments than places. -/
  | tooMany (words : List Text)
  /-- A directory is given where a file should be. -/
  | directoryGiven (option path : Text)
  /-- A file is given where a directory should be. -/
  | fileGiven (option path : Text)
  /-- A word is given that is none of those to choose from. -/
  | noChoice (option word : Text) (choices : List Text)
  deriving DecidableEq, Repr

namespace UsageFault

/-- A text between straight quotes. -/
def named (t : Text) : Text := '\'' :: t ++ ['\'']

/-- What is said about words that are similar to an unknown one. -/
def suggestion : List Text → Text
  | [] => []
  | [word] => " Did you mean " ++ Text.quoted word ++ "?"
  | words => " (Possible options: " ++ Text.joinWith [',', ' '] (words.map Text.quoted) ++ ")"

/-- What is said about the value of an option. -/
def invalid (option reason : Text) : Text :=
  "Invalid value for " ++ named option ++ ": " ++ reason

/-- The fault in words. -/
def message : UsageFault → Text
  | .unknownOption name similar =>
    "No such option " ++ Text.quoted name ++ "." ++ suggestion similar
  | .unknownCommand name similar =>
    "No such command " ++ Text.quoted name ++ "." ++ suggestion similar
  | .commandMissing => "Missing command."
  | .valueMissing option => "Option " ++ Text.quoted option ++ " requires an argument."
  | .valueGiven option => "Option " ++ Text.quoted option ++ " does not take a value."
  | .argumentMissing name => "Missing argument " ++ named name ++ "."
  | .optionMissing name => "Missing option " ++ named name ++ "."
  | .tooMany words =>
    "Got unexpected extra argument" ++ (if words.length = 1 then "" else "s") ++ " ("
      ++ Text.joinWith [' '] words ++ ")"
  | .directoryGiven option path =>
    invalid option ("File " ++ Text.quoted path ++ " is a directory.")
  | .fileGiven option path =>
    invalid option ("Directory " ++ Text.quoted path ++ " is a file.")
  | .noChoice option word choices =>
    invalid option (Text.quoted word ++ " is not one of "
      ++ Text.joinWith [',', ' '] (choices.map Text.quoted) ++ ".")

/-- Whether the usage of the command is shown with the fault: it is not for a value that is missing
or in the way. -/
def showsUsage : UsageFault → Bool
  | .valueMissing _ | .valueGiven _ => false
  | _ => true

/-- The fault as it is shown for a command. -/
def shown (form : CommandForm) (fault : UsageFault) : Text :=
  (if fault.showsUsage then
    form.usage ++ "\nTry '" ++ form.path ++ " --help' for help.\n\n"
  else []) ++ "Error: " ++ fault.message ++ ['\n']

end UsageFault

/-- What a command is given. -/
structure Given where
  /-- The options with their values, in order; a switch has the empty value. -/
  options : List (CommandOption × Text) := []
  /-- The words that are no options. -/
  words : List Text := []

namespace Given

/-- Whether a word is an option. -/
def isOption (word : Text) : Bool := word.head? = some '-' && 1 < word.length

/-- An option's name and the value behind its equals sign, if there is one. -/
def cut (word : Text) : Text × Option Text :=
  match Text.cutFirst '=' word with
  | some (name, value) => (name, some value)
  | none => (word, none)

/-- The option with a name.  After a single hyphen each letter is an option by itself, and no
command has such options. -/
def find (form : CommandForm) (name : Text) : Except UsageFault CommandOption :=
  match form.allOptions.find? fun o => o.name = name with
  | some o => .ok o
  | none =>
    if name.take 2 = ['-', '-'] then
      .error (.unknownOption name (Text.similar name (form.allOptions.map (·.name))))
    else .error (.unknownOption (name.take 2) [])

/-- What is given with one more option. -/
def withOption (o : CommandOption) (value : Text) (g : Given) : Given :=
  { g with options := (o, value) :: g.options }

/-- What is given with one more word. -/
def withWord (word : Text) (g : Given) : Given := { g with words := word :: g.words }

/-- What the words of a command line give.  The first word of a group that is no option, and all
behind it, belongs to a command below. -/
def read (form : CommandForm) : List Text → Except UsageFault Given
  | [] => .ok {}
  | word :: rest =>
    if word = ['-', '-'] then .ok { words := rest }
    else if isOption word then
      let (name, value) := cut word
      -- A single hyphen in front of an equals sign is followed by that sign as its letter.
      match find form (if name.length = 1 then word else name) with
      | .error fault => .error fault
      | .ok o =>
        match o.value, value, rest with
        | none, none, rest => (read form rest).map (withOption o [])
        | none, some _, _ => .error (.valueGiven o.name)
        | some _, some value, rest => (read form rest).map (withOption o value)
        | some _, none, value :: rest => (read form rest).map (withOption o value)
        | some _, none, [] => .error (.valueMissing o.name)
    else if form.isGroup then .ok { words := word :: rest }
    else (read form rest).map (withWord word)

/-- The values of an option. -/
def values (g : Given) (name : Text) : List Text :=
  (g.options.filter fun (o, _) => o.name = name).map (·.2)

/-- The value of an option: the last one that is given. -/
def value? (g : Given) (name : Text) : Option Text := (g.values name).getLast?

/-- Whether an option is given. -/
def has (g : Given) (name : Text) : Bool := g.options.any fun (o, _) => o.name = name

/-- The word at a place. -/
def word (g : Given) (n : Nat) : Text := g.words.getD n []

/-- The options that are given, each once, in the order in which they first are. -/
def names (g : Given) : List CommandOption :=
  g.options.foldl (fun os (o, _) => if os.contains o then os else os ++ [o]) []

/-- The fault in the value of an option, if it has one, or the failure to find out. -/
def checkValue (disk : Disk) (o : CommandOption) (value : Text) :
    Except Failure (Option UsageFault) :=
  let node := disk.lookup value
  match o.value, node with
  | some .directory, .error .nulInPath | some .file, .error .nulInPath =>
    .error (.read .nulInPath)
  | some .directory, .ok (_, node) =>
    .ok (if node.isFile then some (.fileGiven o.name value) else none)
  | some .file, .ok (_, node) =>
    .ok (if node.isDirectory then some (.directoryGiven o.name value) else none)
  | some (.choice words), _ =>
    .ok (if words.contains value then none else some (.noChoice o.name value words))
  | _, _ => .ok none

/-- The first fault in the values of options. -/
def checkValues (disk : Disk) (g : Given) : List CommandOption → Except Failure (Option UsageFault)
  | [] => .ok none
  | o :: os =>
    match checkValue disk o ((g.value? o.name).getD []) with
    | .ok none => checkValues disk g os
    | r => r

/-- The first fault in the words that a command is given and in the options that it is not. -/
def checkRest (form : CommandForm) (g : Given) : Option UsageFault :=
  let missingOption := form.options.find? fun o => o.isRequired && !g.has o.name
  let extra := g.words.drop form.places.length
  match form.places[g.words.length]?, missingOption with
  | some name, _ => some (.argumentMissing name)
  | none, some o => some (.optionMissing o.name)
  | none, none => if extra = [] || form.isGroup then none else some (.tooMany extra)

/-- The first fault in what a command is given. -/
def check (form : CommandForm) (disk : Disk) (g : Given) : Except Failure (Option UsageFault) :=
  match checkValues disk g g.names with
  | .ok none => .ok (checkRest form g)
  | r => r

end Given

end StyleImport
