/-
Binary floating-point numbers of 53 significant bits, in exact arithmetic.

A finite number is `± mantissa · 2 ^ exponent` in its canonical form: the mantissa is below `2 ^ 53`
and the exponent is the least possible one, not below `-1074`.  Every operation rounds a quotient of
natural numbers, so nothing here depends on the processor.

* `ofRatio` — the nearest number to a quotient, a tie going to the even mantissa;
* `ofDecimal` — the number that a decimal numeral spells;
* `isIntegral`, `toInt` — whole numbers among the doubles.
-/
import StyleImport.Text.Basic

namespace StyleImport

/-- A power of two, the zeroth one for negative exponents. -/
def twoTo (exponent : Int) : Nat := Nat.pow 2 exponent.toNat

/-- A power of ten, the zeroth one for negative exponents. -/
def tenTo (exponent : Int) : Nat := Nat.pow 10 exponent.toNat

/-- A binary floating-point number of 53 significant bits. -/
inductive Double where
  /-- `± mantissa · 2 ^ exponent`, in canonical form. -/
  | finite (negative : Bool) (mantissa : Nat) (exponent : Int)
  /-- Beyond every finite number. -/
  | infinite (negative : Bool)
  /-- No number. -/
  | nan
  deriving DecidableEq, Repr

namespace Double

/-- The exponent of the smallest numbers. -/
def leastExponent : Int := -1074

/-- The exponent of the largest numbers. -/
def greatestExponent : Int := 971

/-- Zero with a sign. -/
def zero (negative : Bool) : Double := .finite negative 0 leastExponent

/-- `num / den` divided by `2 ^ e`, as a quotient of natural numbers. -/
def scale (num den : Nat) (e : Int) : Nat × Nat :=
  (num * twoTo (-e), den * twoTo e)

/-- The natural number nearest to `num / den`; halfway between two, the even one. -/
def roundHalfEven (num den : Nat) : Nat :=
  let below := num / den
  let rest := num % den
  if 2 * rest < den then below
  else if den < 2 * rest then below + 1
  else below + below % 2

/-- The double nearest to `num / den`, with a sign; infinite where the nearest one would be too
large. -/
def ofRatio (negative : Bool) (num den : Nat) : Double :=
  if num = 0 || den = 0 then zero negative
  else
    let guess : Int := (num.log2 : Int) - den.log2 - 53
    let (n, d) := scale num den guess
    let e := max leastExponent (if n / d < twoTo 53 then guess else guess + 1)
    let (n, d) := scale num den e
    let m := roundHalfEven n d
    let (m, e) := if m = twoTo 53 then (twoTo 52, e + 1) else (m, e)
    if greatestExponent < e then .infinite negative else .finite negative m e

/-- The double nearest to `± digits · 10 ^ exponent`. -/
def ofDecimal (negative : Bool) (digits : Nat) (exponent : Int) : Double :=
  let places := (Text.ofNat digits).length + exponent
  if digits = 0 || places < -330 then zero negative
  else if 330 < places then .infinite negative
  else ofRatio negative (digits * tenTo exponent) (tenTo (-exponent))

/-- The double nearest to an integer, if it is finite. -/
def ofInt? (n : Int) : Option Double :=
  match ofRatio (n < 0) n.natAbs 1 with
  | .infinite _ => none
  | d => some d

/-- Whether the number is finite and has no fractional part. -/
def isIntegral : Double → Bool
  | .finite _ m e => m % twoTo (-e) = 0
  | _ => false

/-- The number without its fractional part; zero where there is none. -/
def toInt : Double → Int
  | .finite negative m e =>
    let magnitude : Nat := m * twoTo e / twoTo (-e)
    if negative then -(magnitude : Int) else magnitude
  | _ => 0

/-- The sum of two numbers, rounded once; the sum of infinities and of no number is left out as no
number. -/
def add : Double → Double → Double
  | .finite s m e, .finite s' m' e' =>
    let low := min e e'
    let signed (s : Bool) (m : Nat) (e : Int) : Int :=
      let n : Nat := m * twoTo (e - low)
      if s then -(n : Int) else n
    let total := signed s m e + signed s' m' e'
    ofRatio (total < 0) (total.natAbs * twoTo low) (twoTo (-low))
  | _, _ => .nan

/-- The product of two finite numbers, rounded once. -/
def mul : Double → Double → Double
  | .finite s m e, .finite s' m' e' =>
    ofRatio (s != s') (m * m' * twoTo (e + e')) (twoTo (-(e + e')))
  | _, _ => .nan

end Double

end StyleImport
