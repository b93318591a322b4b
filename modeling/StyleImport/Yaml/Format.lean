/-
YAML as a format of documents.

A map that holds too long an integer is not written at all.  Whether bytes are text is found out
before anything else about them, as it is where they come in one piece.
-/
import StyleImport.Data.Format
import StyleImport.Data.Spellable
import StyleImport.Yaml.Read
import StyleImport.Yaml.Write

namespace StyleImport

namespace Yaml

/-- The failure to write too long an integer. -/
def unspellable : Failure :=
  .badValue ("Exceeds the limit (" ++ Text.ofNat Scalar.digitLimit
    ++ " digits) for integer string conversion; use sys.set_int_max_str_digits() to increase the"
    ++ " limit")

/-- YAML as a format of documents. -/
def format : DocumentFormat where
  read t := (read t).mapError fun defect name => defect.message name
  wrongBefore _ := none
  write es :=
    if Data.haveSpellable es then { text := write es } else { text := [], failure := unspellable }

theorem format_read {t : Text} {d : Data} (h : read t = .ok d) : format.read t = .ok d := by
  show (read t).mapError _ = .ok d
  rw [h]
  rfl

theorem format_write {es : List (Scalar × Data)} (h : Data.haveSpellable es = true) :
    format.write es = { text := write es } :=
  if_pos h

end Yaml

end StyleImport
