/-
The journal: where records go.

A journal has a level below which records are dropped, and handlers.  At most one of the handlers is
a sink, a file that lines are written to; starting the journal anew replaces it.

* `Journal.start` — a journal with a sink at a path;
* `Journal.log` — a record written to the sinks.
-/
import StyleImport.Disk.Lookup
import StyleImport.Journal.Record

namespace StyleImport

namespace Level

/-- The words for levels. -/
def words : List (Text × Level) :=
  [("CRITICAL", critical), ("FATAL", critical), ("ERROR", error), ("WARNING", warning),
    ("WARN", warning), ("INFO", info), ("DEBUG", debug), ("NOTSET", 0)]

/-- A letter of a word for a level in capitals; the long s and the dotless i have the capitals of
the common ones, and a ligature of the letters s and t has two. -/
def capitals (c : Char) : Text :=
  if c.toNat = 0x17F then ['S']
  else if c.toNat = 0x131 then ['I']
  else if c.toNat = 0xFB05 || c.toNat = 0xFB06 then ['S', 'T']
  else [c.toUpper]

/-- The word for the layout of messages, which is no level. -/
def layoutWord : Text := "BASIC_FORMAT"

/-- The layout of messages. -/
def layout : Text := "%(levelname)s:%(name)s:%(message)s"

/-- The word for the styles of layouts, which is no level either. -/
def stylesWord : Text := "_STYLES"

/-- The level that a word in any case stands for; progress, for an unknown one. -/
def ofWord (t : Text) : Except Failure Level :=
  let word := t.flatMap capitals
  if word = layoutWord then .error (.badValue ("Unknown level: " ++ Text.quoted layout))
  else if word = stylesWord then .error .wrongKind
  else .ok ((words.lookup word).getD info)

end Level

/-- What records go to. -/
inductive Handler where
  /-- A file that lines are written to. -/
  | sink (path : Text)
  /-- Something else, by a name. -/
  | other (name : Text)
  deriving DecidableEq, Repr

/-- Whether a handler is a sink. -/
def Handler.isSink : Handler → Bool
  | .sink _ => true
  | .other _ => false

/-- The path of a sink. -/
def Handler.path? : Handler → Option Text
  | .sink path => some path
  | .other _ => none

/-- Where records go, and which. -/
structure Journal where
  /-- The level of the least serious records that are written. -/
  level : Level := Level.warning
  /-- The handlers, in the order in which they were added. -/
  handlers : List Handler := []
  deriving DecidableEq, Repr

namespace Journal

/-- The path of a sink that is given none. -/
def defaultPath : Text := "./stylepath.log.jsonl"

/-- The word for the level of a journal that is given none. -/
def defaultWord : Text := "INFO"

/-- A text that is given and not empty, or else the default. -/
def given (default : Text) : Option Text → Text
  | some (c :: cs) => c :: cs
  | _ => default

/-- The paths of the sinks. -/
def sinks (j : Journal) : List Text := j.handlers.filterMap Handler.path?

/-- The journal with a level and without sinks. -/
def reset (level : Level) (j : Journal) : Journal :=
  { level, handlers := j.handlers.filter (!·.isSink) }

/-- What comes of starting a journal with a sink at a path and a level, both with defaults; the
journal and the disk after that.  If the directory of the sink cannot be made, the journal is left
without a sink, and the disk with those of its ancestors that could. -/
def start (path word : Option Text) (disk : Disk) (j : Journal) :
    Except Failure Unit × Journal × Disk :=
  match Level.ofWord (given defaultWord word) with
  | .error e => (.error e, j, disk)
  | .ok level =>
    let path := Path.collapse (given defaultPath path)
    let j := j.reset level
    match disk.tryDirectories (Path.parent path) with
    | (.error e, disk) => (.error (.read e), j, disk)
    | (.ok (), disk) => (.ok (), { j with handlers := j.handlers ++ [.sink path] }, disk)

/-- Whether records of a level are written. -/
def accepts (j : Journal) (level : Level) : Bool := 0 < level && j.level ≤ level

/-- The disk after a line is written behind what a file holds; a file that cannot be written to is
left as it is. -/
def append (disk : Disk) (path line : Text) : Disk :=
  match disk.appendText path line with
  | .ok disk => disk
  | .error _ => disk

/-- The disk after a record is written to the sinks. -/
def emit (j : Journal) (disk : Disk) (r : Record) : Disk :=
  match r.line with
  | some line => j.sinks.foldl (fun disk path => append disk path line) disk
  | none => disk

/-- The disk after a record, if it is serious enough, is written to the sinks. -/
def log (j : Journal) (disk : Disk) (r : Record) : Except Failure Disk :=
  if j.accepts r.level then
    match r.clash? with
    | some name =>
      .error (.unknownKey ("Attempt to overwrite " ++ Text.quoted name ++ " in LogRecord"))
    | none => .ok (j.emit disk r)
  else .ok disk

/-- The disk after events are written to the sinks, all at one time. -/
def logAll (j : Journal) (time : Text) (disk : Disk) (events : List Event) : Disk :=
  events.foldl
    (fun disk e => if j.accepts e.level then j.emit disk (.ofEvent time e) else disk) disk

end Journal

end StyleImport
