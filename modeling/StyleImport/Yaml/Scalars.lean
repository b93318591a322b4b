/-
What plain scalars look like.

A plain scalar is read for what it looks like: a truth value, a number, nothing, a date, or else a
text.  `Look.of` decides; reading and writing both go by it, so that a text that looks like
something else is written between quotes.

* `Look.of` — what a plain scalar looks like;
* `scalarOf` — the value of a plain scalar.
-/
import StyleImport.Data.Basic
import StyleImport.Json.Token

namespace StyleImport

namespace Yaml

/-- What a plain scalar looks like. -/
inductive Look where
  /-- A truth value. -/
  | boolean (b : Bool)
  /-- A number with a point. -/
  | double
  /-- A whole number. -/
  | integer
  /-- The mark of a map to be merged. -/
  | merge
  /-- Nothing. -/
  | null
  /-- A date. -/
  | date
  /-- The mark of a default value. -/
  | default
  /-- A text. -/
  | text
  deriving DecidableEq, Repr

/-- The words for true. -/
def trueWords : List Text :=
  ["yes", "Yes", "YES", "true", "True", "TRUE", "on", "On", "ON"]

/-- The words for false. -/
def falseWords : List Text :=
  ["no", "No", "NO", "false", "False", "FALSE", "off", "Off", "OFF"]

/-- The words for nothing. -/
def nullWords : List Text := ["~", "null", "Null", "NULL", ""]

/-- A digit or an underscore between digits. -/
def isDigitLike (c : Char) : Bool := c.isDigit || c = '_'

/-- Whether digits, and underscores between them, stand there: the first one is a digit. -/
def isNumeral : Text → Bool
  | c :: cs => c.isDigit && cs.all isDigitLike
  | [] => false

/-- A text without a sign in front. -/
def unsigned (t : Text) : Text := (Decimal.sign t).2

/-- Whether a piece of a number in base sixty stands there. -/
def isSixtieth : Text → Bool
  | [c] => c.isDigit
  | [a, b] => a.isDigit && a.toNat ≤ '5'.toNat && b.isDigit
  | _ => false

/-- Whether pieces of a number in base sixty stand there, the first of them any numeral. -/
def isSexagesimal : List Text → Bool
  | t :: ts => isNumeral t && !ts.isEmpty && ts.all isSixtieth
  | [] => false

/-- Whether an exponent stands there: a letter, a sign and digits. -/
def isExponent : Text → Bool
  | e :: s :: ds =>
    (e = 'e' || e = 'E') && (s = '-' || s = '+') && !ds.isEmpty && ds.all Char.isDigit
  | _ => false

/-- Whether digits of a fraction stand there, and an exponent if anything follows them. -/
def isFraction (t : Text) : Bool :=
  let rest := t.dropWhile isDigitLike
  rest = [] || isExponent rest

/-- The words for infinity, after a sign. -/
def infinityWords : List Text := [".inf", ".Inf", ".INF"]

/-- The words for no number. -/
def nanWords : List Text := [".nan", ".NaN", ".NAN"]

/-- Whether a scalar looks like a number with a point. -/
def looksDouble (t : Text) : Bool :=
  let u := unsigned t
  infinityWords.contains u || nanWords.contains t
    || (match Text.cutFirst '.' u with
      | some (whole, fraction) =>
        (isNumeral whole && isFraction fraction)
          || (isSexagesimal (Text.pieces ':' whole) && fraction.all isDigitLike)
      | none => false)
    || (match t with
      | '.' :: c :: cs => c.isDigit && isFraction cs
      | _ => false)

/-- A digit of a number in base two or an underscore. -/
def isBinaryLike (c : Char) : Bool := c = '0' || c = '1' || c = '_'

/-- A digit of a number in base eight or an underscore. -/
def isOctalLike (c : Char) : Bool := ('0' ≤ c && c ≤ '7') || c = '_'

/-- A digit of a number in base sixteen or an underscore. -/
def isHexLike (c : Char) : Bool := (Json.hexDigit? c).isSome || c = '_'

/-- Whether a scalar looks like a whole number. -/
def looksInteger (t : Text) : Bool :=
  match unsigned t with
  | ['0'] => true
  | '0' :: 'b' :: c :: cs => (c :: cs).all isBinaryLike
  | '0' :: 'x' :: c :: cs => (c :: cs).all isHexLike
  | '0' :: cs => cs.all isOctalLike
  | c :: cs =>
    c.isDigit && (cs.all isDigitLike || isSexagesimal (Text.pieces ':' (c :: cs)))
  | [] => false

/-- Whether between `least` and `most` digits stand there. -/
def isDigits (least most : Nat) (t : Text) : Bool :=
  t.all Char.isDigit && least ≤ t.length && t.length ≤ most

/-- Whether a time zone stands there, or nothing. -/
def isZone (t : Text) : Bool :=
  match t.dropWhile fun c => c = ' ' || c = '\t' with
  | [] => t = []
  | ['Z'] => true
  | s :: cs =>
    (s = '-' || s = '+')
      && (match Text.pieces ':' cs with
        | [h] => isDigits 1 2 h
        | [h, m] => isDigits 1 2 h && isDigits 2 2 m
        | _ => false)

/-- Whether seconds stand there, with a fraction and a time zone if anything follows them. -/
def isSeconds (t : Text) : Bool :=
  let rest := t.drop 2
  let rest := match rest with
    | '.' :: cs => cs.dropWhile Char.isDigit
    | cs => cs
  isDigits 2 2 (t.take 2) && isZone rest

/-- Whether a time stands there. -/
def isTime (t : Text) : Bool :=
  match Text.cutFirst ':' t with
  | some (h, rest) =>
    match Text.cutFirst ':' rest with
    | some (m, s) => isDigits 1 2 h && isDigits 2 2 m && isSeconds s
    | none => false
  | none => false

/-- What follows the letter or the blanks between a day and a time. -/
def afterDay : Text → Option Text
  | 'T' :: cs | 't' :: cs => some cs
  | ' ' :: cs | '\t' :: cs => some (cs.dropWhile fun c => c = ' ' || c = '\t')
  | _ => none

/-- Whether a scalar looks like a date. -/
def looksDate (t : Text) : Bool :=
  match Text.cutFirst '-' t with
  | some (y, rest) =>
    match Text.cutFirst '-' rest with
    | some (m, rest) =>
      let d := rest.takeWhile Char.isDigit
      let rest := rest.dropWhile Char.isDigit
      isDigits 4 4 y
        && ((isDigits 2 2 m && isDigits 2 2 d && rest = [])
          || (isDigits 1 2 m && isDigits 1 2 d && (afterDay rest).any isTime))
    | none => false
  | none => false

/-- What a plain scalar looks like. -/
def Look.of (t : Text) : Look :=
  if trueWords.contains t then .boolean true
  else if falseWords.contains t then .boolean false
  else if looksDouble t then .double
  else if looksInteger t then .integer
  else if t = ['<', '<'] then .merge
  else if nullWords.contains t then .null
  else if looksDate t then .date
  else if t = ['='] then .default
  else .text

/-- The value of digits in a base. -/
def valueIn (base : Nat) (t : Text) : Nat :=
  t.foldl (fun n c => n * base + (Json.hexDigit? c).getD 0) 0

/-- The value of a whole number without its sign and without underscores. -/
def unsignedValue (t : Text) : Nat :=
  match t with
  | '0' :: 'b' :: cs => valueIn 2 cs
  | '0' :: 'x' :: cs => valueIn 16 cs
  | '0' :: cs => valueIn 8 cs
  | cs => (Text.pieces ':' cs).foldl (fun n p => n * 60 + valueIn 10 p) 0

/-- The value of a scalar that looks like a whole number. -/
def integerValue (t : Text) : Int :=
  let (negative, digits) := Decimal.sign (t.filter (· ≠ '_'))
  let n : Nat := unsignedValue digits
  if negative then -(n : Int) else n

/-- A double with another sign. -/
def negate : Double → Double
  | .finite s m e => .finite (!s) m e
  | .infinite s => .infinite (!s)
  | .nan => .nan

/-- The value of pieces in base sixty, the last one first: each counts sixty times the
one before. -/
def sexagesimalValue (base : Double) : List Text → Double
  | [] => Double.zero false
  | p :: ps =>
    .add (.mul ((Decimal.read? p).getD .nan) base)
      (sexagesimalValue (.mul base (.ofRatio false 60 1)) ps)

/-- The value of a scalar that looks like a number with a point. -/
def doubleValue (t : Text) : Double :=
  let (negative, digits) := Decimal.sign (Text.toLower (t.filter (· ≠ '_')))
  let d :=
    if digits = ['.', 'i', 'n', 'f'] then .infinite false
    else if digits = ['.', 'n', 'a', 'n'] then .nan
    else if digits.contains ':' then
      sexagesimalValue (.ofRatio false 1 1) (Text.pieces ':' digits).reverse
    else (Decimal.read? digits).getD .nan
  if negative then negate d else d

/-- The value of a plain scalar, if it has one: the marks of merging and of default values are no
values, and a date is taken as its text. -/
def scalarOf (t : Text) : Option Scalar :=
  match Look.of t with
  | .boolean b => some (.boolean b)
  | .double => some (.double (doubleValue t))
  | .integer => some (.integer (integerValue t))
  | .null => some .null
  | .date | .text => some (.text t)
  | .merge | .default => none

end Yaml

end StyleImport
