/-
Instants in the form in which records hold them.

An instant is a number of milliseconds since the first day of 1970.  Days are counted from the first
of March of the year zero, so that a leap day is the last day of its year; four hundred years have
146097 days.

* `Instant.text` — date, time to the millisecond, and the offset of universal time.
-/
import StyleImport.Text.Basic

namespace StyleImport

/-- A number of milliseconds since the first day of 1970, in universal time. -/
abbrev Instant : Type := Nat

namespace Instant

/-- A calendar date. -/
structure Date where
  /-- The year. -/
  year : Nat
  /-- The month, from one on. -/
  month : Nat
  /-- The day of the month, from one on. -/
  day : Nat
  deriving DecidableEq, Repr

/-- The date that is so many days after the first day of 1970. -/
def date (days : Nat) : Date :=
  let shifted := days + 719468
  let cycle := shifted / 146097
  let dayOfCycle := shifted % 146097
  let yearOfCycle :=
    (dayOfCycle - dayOfCycle / 1460 + dayOfCycle / 36524 - dayOfCycle / 146096) / 365
  let dayOfYear := dayOfCycle - (365 * yearOfCycle + yearOfCycle / 4 - yearOfCycle / 100)
  let month := (5 * dayOfYear + 2) / 153
  let inNextYear := 10 ≤ month
  { year := yearOfCycle + 400 * cycle + (if inNextYear then 1 else 0)
    month := if inNextYear then month - 9 else month + 3
    day := dayOfYear - (153 * month + 2) / 5 + 1 }

/-- A number in so many digits. -/
def digits (width n : Nat) : Text := Text.padLeft width '0' (Text.ofNat n)

/-- An instant as a text. -/
def text (t : Instant) : Text :=
  let seconds := t / 1000
  let d := date (seconds / 86400)
  digits 4 d.year ++ '-' :: digits 2 d.month ++ '-' :: digits 2 d.day ++ 'T'
    :: digits 2 (seconds / 3600 % 24) ++ ':' :: digits 2 (seconds / 60 % 60) ++ ':'
    :: digits 2 (seconds % 60) ++ '.' :: digits 3 (t % 1000) ++ "+00:00"

example : text 951825599123 = ("2000-02-29T11:59:59.123+00:00" : Text) := by decide +kernel

end Instant

end StyleImport
