/-
Reading each file once.

Everyone who wants a file comes to the desk with its key.  The first one starts a read; whoever
comes while the read is under way, or after it succeeded, joins it.  A read that failed is taken off
the desk by the first of its readers who learns of it, so that a later one starts a new read.

A read is known by its ticket, the number of reads started before it.  `arrive`, `complete` and
`resume` are the steps that readers and reads take; they may come in any order that makes sense, and
`Compilation.readOnce` takes them one after the other.
-/
import StyleImport.Data.Entries
import StyleImport.Error

namespace StyleImport

/-- The outcome of a read. -/
abbrev ReadOutcome : Type := Except ReadFailure Text

/-- The reads that were started. -/
structure ReadDesk where
  /-- The tickets of the reads that those who come for a key join. -/
  tickets : List (Text × Nat) := []
  /-- The outcomes of all reads by ticket; a read under way has none. -/
  outcomes : List (Option ReadOutcome) := []
  deriving Repr

namespace ReadDesk

/-- The number of keys whose read is under way or succeeded. -/
def count (d : ReadDesk) : Nat := d.tickets.length

/-- The outcome of a read, if it is over. -/
def outcome? (d : ReadDesk) (ticket : Nat) : Option ReadOutcome :=
  (d.outcomes[ticket]?).getD none

/-- Someone comes for a key: the ticket of the read that they join, whether they start it, and the
desk afterwards. -/
def arrive (d : ReadDesk) (key : Text) : Nat × Bool × ReadDesk :=
  match Entries.get? key d.tickets with
  | some ticket => (ticket, false, d)
  | none =>
    (d.outcomes.length, true,
      ⟨Entries.put key d.outcomes.length d.tickets, d.outcomes ++ [none]⟩)

/-- A read is over. -/
def complete (d : ReadDesk) (ticket : Nat) (outcome : ReadOutcome) : ReadDesk :=
  { d with outcomes := d.outcomes.set ticket (some outcome) }

/-- Someone who joined a read for a key learns of its outcome. -/
def resume (d : ReadDesk) (key : Text) (ticket : Nat) (outcome : ReadOutcome) : ReadDesk :=
  match outcome with
  | .ok _ => d
  | .error _ =>
    if Entries.get? key d.tickets = some ticket then
      { d with tickets := Entries.erase key d.tickets }
    else d

end ReadDesk

end StyleImport
