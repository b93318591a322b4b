/-
What is assumed of a format of documents.

A format is a parameter of whatever reads and writes files.  These are the two things that may be
assumed of it: the maps that it reads are maps, and it reads what it wrote.
-/
import StyleImport.Data.Format
import StyleImport.Proofs.Data.Reordered

namespace StyleImport

namespace DocumentFormat

/-- In the maps that are read each key stands once. -/
def KeysOnce (format : DocumentFormat) : Prop :=
  ∀ t d, format.read t = .ok d → d.KeysOnce

/-- Entries are written to their end, in lines that line feeds end, and are read back as a map of
the same values. -/
structure ReadsBack (format : DocumentFormat) (es : List (Scalar × Data)) : Prop where
  whole : (format.write es).failure = none
  lines : '\r' ∉ (format.write es).text
  read : ∃ d, format.read (format.write es).text = .ok d ∧ d.Reordered (.map es)

end DocumentFormat

end StyleImport
