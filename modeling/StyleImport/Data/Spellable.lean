/-
Documents that can be spelled out.

An integer is written in decimal only up to a number of digits.  A document that holds a longer one,
at whatever depth, is neither put into words nor written.
-/
import StyleImport.Data.Basic

namespace StyleImport

/-- The greatest number of decimal digits that an integer is written with or read from. -/
def Scalar.digitLimit : Nat := 4300

/-- Whether a scalar is not too long an integer. -/
def Scalar.isSpellable : Scalar → Bool
  | .integer n => (Text.ofNat n.natAbs).length ≤ digitLimit
  | _ => true

namespace Data

mutual

/-- Whether no integer in a document is too long. -/
def isSpellable : Data → Bool
  | .scalar s => s.isSpellable
  | .list items => areSpellable items
  | .map es => haveSpellable es

/-- Whether no integer in the items of a list is too long. -/
def areSpellable : List Data → Bool
  | [] => true
  | d :: ds => isSpellable d && areSpellable ds

/-- Whether no integer in the entries of a map is too long. -/
def haveSpellable : List (Scalar × Data) → Bool
  | [] => true
  | (k, d) :: es => k.isSpellable && isSpellable d && haveSpellable es

end

end Data

end StyleImport
