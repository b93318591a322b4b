/-
Records and their lines.

A record is one message to the journal.  Its line is a JSON object that starts with the time, the
level, the schema of lines, the logger and the message; a message that is a map is laid over these
fields, and extra fields follow under names that are still free.

* `Record.payload` — the fields of a record's line;
* `Record.line` — the line itself, which ends in the only line end that it holds.
-/
import StyleImport.Journal.Event
import StyleImport.Journal.Template
import StyleImport.Json.Writer

namespace StyleImport

namespace Level

/-- The levels with a name. -/
def names : List (Level × Text) :=
  [(critical, "CRITICAL"), (error, "ERROR"), (warning, "WARNING"), (info, "INFO"), (debug, "DEBUG"),
    (0, "NOTSET")]

/-- The name of a level. -/
def name (level : Level) : Text :=
  match names.lookup level with
  | some n => n
  | none => "Level " ++ Text.ofInt level

end Level

/-- A message to the journal. -/
structure Record where
  /-- The time of the message. -/
  time : Text := []
  /-- The name of the part of a program that the message comes from; the root has none. -/
  logger : Text
  /-- How serious it is. -/
  level : Level
  /-- The message: a text or a map. -/
  message : Data
  /-- The arguments for the places in the message. -/
  arguments : List Data := []
  /-- Extra fields. -/
  extra : List (Text × Data) := []

namespace Record

/-- The record of an event. -/
def ofEvent (time : Text) (e : Event) : Record :=
  { time, logger := e.source.name, level := e.level, message := .text e.message }

/-- The names that no extra field may have, since every record uses them itself. -/
def takenNames : List Text :=
  ["message", "asctime", "name", "msg", "args", "levelname", "levelno", "pathname", "filename",
    "module", "exc_info", "exc_text", "stack_info", "lineno", "funcName", "created", "msecs",
    "relativeCreated", "thread", "threadName", "processName", "process"]

/-- The name of an extra field that is not written. -/
def unwrittenName : Text := "taskName"

/-- The first extra field whose name is taken. -/
def clash? (r : Record) : Option Text :=
  (r.extra.find? fun (name, _) => takenNames.contains name).map (·.1)

/-- The message in words, if it can be put into words: without arguments it stands for itself. -/
def text? (r : Record) : Option Text :=
  if !r.message.isSpellable then none
  else if r.arguments = [] then some r.message.shown
  else Template.fill r.message.shown r.arguments

/-- The name of the logger in lines. -/
def loggerName (r : Record) : Text := if r.logger = [] then "root" else r.logger

/-- The schema of lines. -/
def schema : Data :=
  .map [(.text "name", .text "stylepath.log"), (.text "ver", .text "1.0.0")]

/-- The fields that every line starts with. -/
def coreFields (r : Record) (message : Text) : List (Scalar × Data) :=
  [(.text "ts", .text r.time), (.text "lvl", .text r.level.name), (.text "schema", schema),
    (.text "logger", .text r.loggerName), (.text "message", .text message)]

/-- Fields with those of a map laid over them. -/
def withFields (es : List (Scalar × Data)) : Data → List (Scalar × Data)
  | .map fields => fields.foldl (fun es (k, d) => Entries.putBy Scalar.sameKey k d es) es
  | _ => es

/-- Fields with an extra one, if its name is free. -/
def withExtra (es : List (Scalar × Data)) (field : Text × Data) : List (Scalar × Data) :=
  let key := Scalar.text field.1
  if field.1 = unwrittenName || (Entries.getBy? Scalar.sameKey key es).isSome then es
  else es ++ [(key, field.2)]

/-- The fields of a record's line, if its message has a text. -/
def payload (r : Record) : Option (List (Scalar × Data)) :=
  r.text?.map fun message =>
    r.extra.foldl withExtra (withFields (r.coreFields message) r.message)

/-- The line of a record, if its message has a text and its fields can be spelled out.  Texts are
made of whole characters, so none is half of a surrogate pair, which has no bytes; and fields are
followed as deep as they are nested. -/
def line (r : Record) : Option Text :=
  (r.payload.filter Data.haveSpellable).map fun es => Json.write (.map es) ++ ['\n']

end Record

end StyleImport
