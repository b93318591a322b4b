/-
The tokens of a JSON text, each with the place where it starts.

`tokens` cuts a text into punctuation, texts and other scalars.  It stops at the first place where
no token starts (`junk`) or where a text is broken (`broken`); what that means is up to the reader,
which may find fault with an earlier token first.  An integer of too many digits (`huge`) is none
that the reader takes.
-/
import StyleImport.Data.Spellable

namespace StyleImport

namespace Json

/-- What can be wrong with a JSON text. -/
inductive Problem where
  /-- No value where one must stand. -/
  | expectingValue
  /-- No key where one must stand. -/
  | expectingKey
  /-- No colon after a key. -/
  | expectingColon
  /-- Neither a comma nor the closing bracket after a value. -/
  | expectingComma
  /-- Something after the document. -/
  | extraData
  /-- A text without its closing quote. -/
  | unterminatedText
  /-- A control character inside a text. -/
  | controlCharacter
  /-- A backslash before a character that it cannot escape. -/
  | badEscape
  /-- `\u` without four hexadecimal digits. -/
  | badCodePoint
  /-- A byte order mark in front of the document. -/
  | byteOrderMark
  /-- An integer with more digits than are read. -/
  | tooManyDigits (digits : Nat)
  deriving DecidableEq, Repr

/-- The wording of a problem. -/
def Problem.message : Problem → Text
  | .expectingValue => "Expecting value"
  | .expectingKey => "Expecting property name enclosed in double quotes"
  | .expectingColon => "Expecting ':' delimiter"
  | .expectingComma => "Expecting ',' delimiter"
  | .extraData => "Extra data"
  | .unterminatedText => "Unterminated string starting at"
  | .controlCharacter => "Invalid control character at"
  | .badEscape => "Invalid \\escape"
  | .badCodePoint => "Invalid \\uXXXX escape"
  | .byteOrderMark => "Unexpected UTF-8 BOM (decode using utf-8-sig)"
  | .tooManyDigits digits =>
    "Exceeds the limit (" ++ Text.ofNat Scalar.digitLimit
      ++ " digits) for integer string conversion: value has " ++ Text.ofNat digits
      ++ " digits; use sys.set_int_max_str_digits() to increase the limit"

/-- A problem and its place, counted in characters from the start. -/
structure Fault where
  /-- What is wrong. -/
  problem : Problem
  /-- Where. -/
  offset : Nat
  deriving DecidableEq, Repr

/-- A token. -/
inductive Token where
  /-- One of the six brackets and separators. -/
  | mark (c : Char)
  /-- A text. -/
  | text (t : Text)
  /-- A number or a word. -/
  | scalar (s : Scalar)
  /-- An integer with so many digits that it is not read. -/
  | huge (digits : Nat)
  /-- No token starts here. -/
  | junk
  /-- A text starts here and is broken. -/
  | broken (fault : Fault)
  deriving DecidableEq, Repr

/-- The blanks between tokens. -/
def isBlank (c : Char) : Bool := c = ' ' || c = '\t' || c = '\n' || c = '\r'

/-- The brackets and separators. -/
def isMark (c : Char) : Bool :=
  c = '{' || c = '}' || c = '[' || c = ']' || c = ',' || c = ':'

/-- The value of a hexadecimal digit. -/
def hexDigit? (c : Char) : Option Nat :=
  if c.isDigit then some (c.toNat - '0'.toNat)
  else if 'a' ≤ c && c ≤ 'f' then some (c.toNat - 'a'.toNat + 10)
  else if 'A' ≤ c && c ≤ 'F' then some (c.toNat - 'A'.toNat + 10)
  else none

/-- The value of four hexadecimal digits in front, if something follows them. -/
def hexCode? : Text → Option Nat
  | a :: b :: c :: d :: _ :: _ => do
    let a ← hexDigit? a
    let b ← hexDigit? b
    let c ← hexDigit? c
    let d ← hexDigit? d
    return ((a * 16 + b) * 16 + c) * 16 + d
  | _ => none

/-- The character that a letter after a backslash means. -/
def shortEscape? (c : Char) : Option Char :=
  if c = '"' || c = '\\' || c = '/' then some c
  else if c = 'n' then some '\n'
  else if c = 'r' then some '\r'
  else if c = 't' then some '\t'
  else if c = 'b' then some (Char.ofNat 8)
  else if c = 'f' then some (Char.ofNat 12)
  else none

/-- The character of a code point; half of a surrogate pair alone is the replacement character. -/
def charOfCode (n : Nat) : Char :=
  if 0xD800 ≤ n && n < 0xE000 then Char.ofNat 0xFFFD else Char.ofNat n

/-- The second half of a surrogate pair, if `\uXXXX` with one comes next. -/
def lowSurrogate? : Text → Option Nat
  | '\\' :: 'u' :: cs => (hexCode? cs).filter fun n => 0xDC00 ≤ n && n < 0xE000
  | _ => none

/-- Whether a second `\u` comes next that is not followed by four hexadecimal digits, although there
is room for them. -/
def brokenPair : Text → Bool
  | '\\' :: 'u' :: a :: b :: c :: d :: _ :: _ => [a, b, c, d].any fun x => (hexDigit? x).isNone
  | _ => false

/-- A text after its opening quote at `start`: its characters and how many were read, closing quote
included.  `skip` characters belong to an escape that was read already. -/
def readText (start : Nat) : (skip offset : Nat) → Text → Except Fault (Text × Nat)
  | _, _, [] => .error ⟨.unterminatedText, start⟩
  | skip + 1, offset, _ :: cs =>
    (readText start skip (offset + 1) cs).map fun (t, n) => (t, n + 1)
  | 0, offset, c :: cs =>
    let continueWith (skip : Nat) (c : Char) : Except Fault (Text × Nat) :=
      (readText start skip (offset + 1) cs).map fun (t, n) => (c :: t, n + 1)
    if c = '"' then .ok ([], 1)
    else if c = '\\' then
      match cs with
      | [] => .error ⟨.unterminatedText, start⟩
      | 'u' :: digits =>
        match hexCode? digits with
        | none => .error ⟨.badCodePoint, offset + 1⟩
        | some high =>
          if 0xD800 ≤ high && high < 0xDC00 then
            if brokenPair (digits.drop 4) then .error ⟨.badCodePoint, offset + 7⟩
            else match lowSurrogate? (digits.drop 4) with
              | some low =>
                continueWith 11 (Char.ofNat (0x10000 + (high - 0xD800) * 0x400 + (low - 0xDC00)))
              | none => continueWith 5 (charOfCode high)
          else continueWith 5 (charOfCode high)
      | e :: _ =>
        match shortEscape? e with
        | some c => continueWith 1 c
        | none => .error ⟨.badEscape, offset⟩
    else if c.toNat < 32 then .error ⟨.controlCharacter, offset⟩
    else continueWith 0 c

/-- The digits in front. -/
def digitsOf (cs : Text) : Text := cs.takeWhile Char.isDigit

/-- The digits before a point: a zero stands alone. -/
def wholeOf : Text → Text
  | '0' :: _ => ['0']
  | cs => digitsOf cs

/-- The digits behind a point, if one comes next. -/
def fractionOf : Text → Text
  | '.' :: cs => digitsOf cs
  | _ => []

/-- The exponent that comes next and its length; without one, both are zero. -/
def exponentOf : Text → Int × Nat
  | e :: cs =>
    let (down, digits) := Decimal.sign cs
    let ds := digitsOf digits
    if (e = 'e' || e = 'E') && ds ≠ [] then
      let n : Nat := Text.decimalValue ds
      (if down then -(n : Int) else n, 1 + (cs.length - digits.length) + ds.length)
    else (0, 0)
  | [] => (0, 0)

/-- A number without its sign: its value and length. -/
def readUnsigned? (negative : Bool) (cs : Text) : Option (Scalar × Nat) :=
  let whole := wholeOf cs
  if whole = [] then none
  else
    let rest := cs.drop whole.length
    let fraction := fractionOf rest
    let pointed := if fraction = [] then 0 else fraction.length + 1
    let (exponent, spelled) := exponentOf (rest.drop pointed)
    let length := whole.length + pointed + spelled
    if pointed + spelled = 0 then
      let n : Nat := Text.decimalValue whole
      some (.integer (if negative then -(n : Int) else n), length)
    else
      some (.double (Double.ofDecimal negative (Text.decimalValue (whole ++ fraction))
        (exponent - fraction.length)), length)

/-- The words that stand for values. -/
def words : List (Text × Scalar) :=
  [("null", .null), ("true", .boolean true), ("false", .boolean false),
    ("NaN", .double .nan), ("Infinity", .double (.infinite false)),
    ("-Infinity", .double (.infinite true))]

/-- A number or word in front: its value and length. -/
def readScalar? (cs : Text) : Option (Scalar × Nat) :=
  match words.find? fun (w, _) => w.isPrefixOf cs with
  | some (w, s) => some (s, w.length)
  | none =>
    match cs with
    | '-' :: digits => (readUnsigned? true digits).map fun (s, n) => (s, n + 1)
    | cs => readUnsigned? false cs

/-- The token of a number or word of some length. -/
def scalarToken (s : Scalar) (length : Nat) : Token :=
  match s with
  | .integer n =>
    let digits := if n < 0 then length - 1 else length
    if Scalar.digitLimit < digits then .huge digits else .scalar s
  | _ => .scalar s

/-- The tokens of a text that starts at `offset`. -/
def tokens (offset : Nat) (cs : Text) : List (Token × Nat) :=
  match cs with
  | [] => []
  | c :: cs =>
    if isBlank c then tokens (offset + 1) cs
    else if isMark c then (.mark c, offset) :: tokens (offset + 1) cs
    else if c = '"' then
      match readText offset 0 (offset + 1) cs with
      | .error fault => [(.broken fault, offset)]
      | .ok (t, n) => (.text t, offset) :: tokens (offset + 1 + n) (cs.drop n)
    else match readScalar? (c :: cs) with
      | none => [(.junk, offset)]
      | some (s, n) =>
        (scalarToken s n, offset) :: tokens (offset + 1 + (n - 1)) (cs.drop (n - 1))
termination_by cs.length

end Json

end StyleImport
