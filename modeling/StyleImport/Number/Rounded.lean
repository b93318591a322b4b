/-
Decimal numerals with a given number of digits.

The number is rounded once, exactly, a tie going to the even last digit.

* `fixed` — so many places after the point;
* `scientific` — one digit before the point, so many after it, and an exponent;
* `general` — so many significant digits, in whichever of the two forms is shorter.
-/
import StyleImport.Number.Decimal

namespace StyleImport

namespace Decimal

/-- How a numeral with a given number of digits is laid out. -/
inductive Form where
  /-- So many places after the point. -/
  | fixed
  /-- With an exponent. -/
  | scientific
  /-- So many significant digits. -/
  | general
  deriving DecidableEq, Repr

/-- Digits with a point in front of the last `places` of them; without places there is a point only
if `keepPoint` says so. -/
def pointed (keepPoint : Bool) (places : Nat) (digits : Text) : Text :=
  let digits := Text.padLeft (places + 1) '0' digits
  let whole := digits.take (digits.length - places)
  if places = 0 then whole ++ (if keepPoint then ['.'] else [])
  else whole ++ '.' :: digits.drop (digits.length - places)

/-- `mantissa · 2 ^ exponent` with so many places after the point. -/
def fixed (keepPoint : Bool) (places mantissa : Nat) (exponent : Int) : Text :=
  let scaled := Double.roundHalfEven (mantissa * twoTo exponent * tenTo places) (twoTo (-exponent))
  pointed keepPoint places (Text.ofNat scaled)

/-- So many significant digits of `mantissa · 2 ^ exponent`, and the power of ten of the
first one. -/
def significant (count mantissa : Nat) (exponent : Int) : Text × Int :=
  if mantissa = 0 then (List.replicate count '0', 0)
  else
    let num := mantissa * twoTo exponent
    let den := twoTo (-exponent)
    let power := magnitude num den
    let shift := power - count
    let digits := Text.ofNat
      (Double.roundHalfEven (num * tenTo (-shift)) (den * tenTo shift))
    if count < digits.length then (digits.take count, power) else (digits, power - 1)

/-- An exponent of at least two digits. -/
def exponentText (n : Int) : Text :=
  'e' :: (if n < 0 then '-' else '+') :: Text.padLeft 2 '0' (Text.ofNat n.natAbs)

/-- `mantissa · 2 ^ exponent` with one digit before the point and so many after it. -/
def scientific (keepPoint : Bool) (places mantissa : Nat) (exponent : Int) : Text :=
  let (digits, power) := significant (places + 1) mantissa exponent
  pointed keepPoint places digits ++ exponentText power

/-- `mantissa · 2 ^ exponent` with so many significant digits, at least one.  Zeros at the end are
left out, unless `keepPoint` says that even the point stays. -/
def general (keepPoint : Bool) (count mantissa : Nat) (exponent : Int) : Text :=
  let count := max count 1
  let (digits, power) := significant count mantissa exponent
  let kept := if keepPoint then digits else Text.dropEndWhile (· = '0') digits
  if power < -4 || (count : Int) ≤ power then
    let kept := if kept = [] then ['0'] else kept
    pointed keepPoint (kept.length - 1) kept ++ exponentText power
  else if power < 0 then
    let kept := List.replicate (-power).toNat '0' ++ kept
    pointed keepPoint (kept.length - 1) kept
  else
    let places := kept.length - (power.toNat + 1)
    pointed keepPoint places (Text.padRight (power.toNat + 1) '0' kept)

/-- The numeral of a double without its sign. -/
def Form.write (form : Form) (keepPoint : Bool) (count : Nat) : Double → Text
  | .finite _ m e =>
    match form with
    | .fixed => Decimal.fixed keepPoint count m e
    | .scientific => Decimal.scientific keepPoint count m e
    | .general => Decimal.general keepPoint count m e
  | .infinite _ => "inf"
  | .nan => "nan"

end Decimal

end StyleImport
