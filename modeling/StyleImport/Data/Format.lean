/-
Formats of documents.

A format reads documents from texts and writes maps as texts.  What reads and writes files takes a
format as a parameter, so that nothing depends on how documents are spelled.
-/
import StyleImport.Data.Basic
import StyleImport.Error

namespace StyleImport

/-- What comes of writing a map: the text that is written, and the failure that ends the writing
before everything is, if there is one. -/
structure Written where
  /-- The text. -/
  text : Text
  /-- The failure. -/
  failure : Option Failure := none

namespace Written

/-- Whether everything was written, or the failure that ended the writing. -/
def outcome (w : Written) : Except Failure Unit :=
  match w.failure with
  | some e => .error e
  | none => .ok ()

theorem outcome_eq_ok_iff {w : Written} : w.outcome = .ok () ↔ w.failure = none := by
  unfold outcome
  split <;> simp_all

theorem outcome_eq_error_iff {w : Written} {e : Failure} :
    w.outcome = .error e ↔ w.failure = some e := by
  unfold outcome
  split <;> simp_all

end Written

/-- A way to spell documents.  What is wrong with a text is said of a text that goes by a name. -/
structure DocumentFormat where
  /-- The document of a text, or what is wrong with the text. -/
  read : Text → Except (Text → Text) Data
  /-- What is wrong with bytes that are no text, if it is found before they turn out to be none. -/
  wrongBefore : List UInt8 → Option (Text → Text)
  /-- What comes of writing a map. -/
  write : List (Scalar × Data) → Written

end StyleImport
