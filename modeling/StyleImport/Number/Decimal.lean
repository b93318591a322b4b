/-
Decimal numerals of doubles.

`shortest` finds the fewest significant digits that read back as the number and, of the numerals
with that many digits, the nearest.  It walks the decimal grids from coarse to fine; on each grid
only the two neighbours of the number can lie among the reals that round to it.

`Style.write` lays the digits out.  Its fields are the choices of a format: where positional
notation ends, how infinity and "no number" are spelled, what follows a mantissa of one digit.

`read?` reads a numeral back.
-/
import StyleImport.Number.Double

namespace StyleImport

namespace Decimal

/-- `0.d₁d₂… · 10 ^ point`, with digits `d₁d₂…` from the most significant on. -/
structure Digits where
  /-- The significant digits, without zeros at the end. -/
  digits : Text
  /-- The power of ten of the place before the first digit. -/
  point : Int
  deriving DecidableEq, Repr

/-- The least `p` with `num / den < 10 ^ p`, for a positive quotient. -/
def magnitude (num den : Nat) : Int :=
  if den ≤ num then (Text.ofNat (num / den)).length
  else
    let zeros : Nat := (Text.ofNat (den / num)).length
    if num * tenTo (zeros - 1) = den then 2 - (zeros : Int) else 1 - (zeros : Int)

/-- The grid of multiples of `10 ^ k`, if it meets the interval from `low` to `high` around `value`
(all three in units of `2 ^ e`, the ends belonging to it if `closed`): the multiplier of the nearest
point that does. -/
def gridPoint? (low value high : Nat) (closed : Bool) (e k : Int) : Option Nat :=
  let unit := twoTo e * tenTo (-k)
  let step := twoTo (-e) * tenTo k
  let inside (c : Nat) : Bool :=
    if closed then low * unit ≤ c * step && c * step ≤ high * unit
    else low * unit < c * step && c * step < high * unit
  let below := value * unit / step
  let above := below + 1
  match inside below, inside above with
  | true, true =>
    let toBelow := value * unit - below * step
    let toAbove := above * step - value * unit
    some (if toBelow < toAbove || (toBelow = toAbove && below % 2 = 0) then below else above)
  | true, false => some below
  | false, true => some above
  | false, false => none

/-- The first grid, from `count` significant digits on, that has a point for the number: its
multiplier and exponent. -/
def firstGrid (low value high : Nat) (closed : Bool) (e places : Int) :
    (count tries : Nat) → Nat × Int
  | count, 0 => (value, places - count)
  | count, tries + 1 =>
    match gridPoint? low value high closed e (places - count) with
    | some c => (c, places - count)
    | none => firstGrid low value high closed e places (count + 1) tries

/-- The shortest digits that read back as `mantissa · 2 ^ exponent`, the nearest among them. -/
def shortest (mantissa : Nat) (exponent : Int) : Digits :=
  if mantissa = 0 then ⟨['0'], 1⟩
  else
    let e := exponent - 2
    let value := 4 * mantissa
    let gapBelow := if mantissa = twoTo 52 && Double.leastExponent < exponent then 1 else 2
    let places := magnitude (value * twoTo e) (twoTo (-e))
    let (c, k) := firstGrid (value - gapBelow) value (value + 2) (mantissa % 2 = 0) e places 1 17
    let all := Text.ofNat c
    ⟨Text.dropEndWhile (· = '0') all, k + all.length⟩

/-- The choices of a format for doubles. -/
structure Style where
  /-- The least position of the point that is written out with zeros in front. -/
  positionalFrom : Int := -3
  /-- The greatest position of the point that is written out. -/
  positionalTo : Int := 16
  /-- What stands between a mantissa of one digit and its exponent. -/
  loneMantissa : Text := []
  /-- The spelling of infinity. -/
  infinity : Text := ['i', 'n', 'f']
  /-- The spelling of no number. -/
  notANumber : Text := ['n', 'a', 'n']

/-- Digits laid out with a point, or with an exponent of at least two digits. -/
def Style.layOut (style : Style) (d : Digits) : Text :=
  if style.positionalFrom ≤ d.point && d.point ≤ style.positionalTo then
    if d.point ≤ 0 then
      ['0', '.'] ++ List.replicate (-d.point).toNat '0' ++ d.digits
    else
      let whole := d.point.toNat
      let fraction := d.digits.drop whole
      Text.padRight whole '0' (d.digits.take whole) ++ ['.']
        ++ (if fraction = [] then ['0'] else fraction)
  else
    let exponent := d.point - 1
    let mantissa := match d.digits with
      | [] => []
      | [c] => c :: style.loneMantissa
      | c :: cs => c :: '.' :: cs
    mantissa ++ ['e', if exponent < 0 then '-' else '+']
      ++ Text.padLeft 2 '0' (Text.ofNat exponent.natAbs)

/-- A double in the given style. -/
def Style.write (style : Style) : Double → Text
  | .finite negative m e =>
    (if negative then ['-'] else []) ++ style.layOut (shortest m e)
  | .infinite negative => (if negative then ['-'] else []) ++ style.infinity
  | .nan => style.notANumber

/-- The plain style: positional from four zeros after the point up to sixteen digits before it. -/
def plain : Style := {}

/-- An optional sign in front of a numeral. -/
def sign : Text → Bool × Text
  | '-' :: cs => (true, cs)
  | '+' :: cs => (false, cs)
  | cs => (false, cs)

/-- The exponent of a numeral, if the rest of it is one. -/
def exponent? : Text → Option Int
  | [] => some 0
  | c :: cs =>
    let (negative, digits) := sign cs
    if (c = 'e' || c = 'E') && digits ≠ [] && digits.all Char.isDigit then
      let n : Nat := Text.decimalValue digits
      some (if negative then -(n : Int) else n)
    else none

/-- The double that a decimal numeral spells: digits with an optional sign, point and exponent, or
one of the words for infinity and no number. -/
def read? (t : Text) : Option Double :=
  let (negative, t) := sign t
  let word := Text.toLower t
  if word = "inf" || word = "infinity" then some (.infinite negative)
  else if word = "nan" then some .nan
  else
    let whole := t.takeWhile Char.isDigit
    let rest := t.dropWhile Char.isDigit
    let (fraction, rest) := match rest with
      | '.' :: cs => (cs.takeWhile Char.isDigit, cs.dropWhile Char.isDigit)
      | cs => ([], cs)
    if whole ++ fraction = [] then none
    else (exponent? rest).map fun e =>
      Double.ofDecimal negative (Text.decimalValue (whole ++ fraction)) (e - fraction.length)

end Decimal

end StyleImport
