/-
Messages with places for arguments.

A place starts with a percent sign: a name in parentheses, flags, a width, a precision behind a
point and a letter that says how the argument is written; a percent sign instead of the letter
stands for itself.  Each place takes the next argument, and a star for a width or precision takes
one too; a single map supplies the places that have names.  A template has no result if a place is
malformed, an argument has the wrong type or cannot be spelled out, or their numbers differ.

* `Template.pieces?` — a template cut into text and places;
* `Template.fill` — a template with arguments in its places.
-/
import StyleImport.Data.Spellable
import StyleImport.Number.Rounded

namespace StyleImport

namespace Template

/-- A width or a precision. -/
inductive Measure where
  /-- None is given. -/
  | absent
  /-- It is given as a number. -/
  | given (n : Nat)
  /-- The next argument says. -/
  | argument
  deriving DecidableEq, Repr

/-- The flags of a place. -/
structure Flags where
  /-- The value stands at the left of its width. -/
  left : Bool := false
  /-- A sign stands before positive numbers too. -/
  plus : Bool := false
  /-- A space stands before positive numbers. -/
  blank : Bool := false
  /-- The base is shown, or a point without places. -/
  alternate : Bool := false
  /-- Numbers are filled up with zeros. -/
  zero : Bool := false
  deriving DecidableEq, Repr

/-- A place for an argument. -/
structure Place where
  /-- The name of the argument, if it has one. -/
  name : Option Text
  /-- The flags. -/
  flags : Flags
  /-- The least width. -/
  width : Measure
  /-- The precision. -/
  precision : Measure
  /-- The letter that says how the argument is written. -/
  letter : Char
  deriving DecidableEq, Repr

/-- A piece of a template. -/
inductive Piece where
  /-- A character. -/
  | character (c : Char)
  /-- A place. -/
  | place (p : Place)
  deriving DecidableEq, Repr

/-- A name up to the parenthesis that closes it, and the rest of the text behind that; `depth`
parentheses inside the name are still open. -/
def nameTo : (depth : Nat) → Text → Option (Text × Text)
  | _, [] => none
  | depth, c :: cs =>
    let continueAt (depth : Nat) : Option (Text × Text) :=
      (nameTo depth cs).map fun (t, rest) => (c :: t, rest)
    if c = '(' then continueAt (depth + 1)
    else if c = ')' then
      match depth with
      | 0 => some ([], cs)
      | depth + 1 => continueAt depth
    else continueAt depth

/-- The name in parentheses in front of a text, if there is one, and the rest of the text. -/
def name? : Text → Option (Option Text × Text)
  | '(' :: cs => (nameTo 0 cs).map fun (t, rest) => (some t, rest)
  | cs => some (none, cs)

/-- Flags with one more, if the character is one. -/
def Flags.add? (f : Flags) (c : Char) : Option Flags :=
  if c = '-' then some { f with left := true }
  else if c = '+' then some { f with plus := true }
  else if c = ' ' then some { f with blank := true }
  else if c = '#' then some { f with alternate := true }
  else if c = '0' then some { f with zero := true }
  else none

/-- The flags in front of a text, and the rest of it. -/
def flags (f : Flags) : Text → Flags × Text
  | [] => (f, [])
  | c :: cs =>
    match f.add? c with
    | some f => flags f cs
    | none => (f, c :: cs)

/-- The number or star in front of a text, and the rest of it. -/
def measure : Text → Measure × Text
  | '*' :: cs => (.argument, cs)
  | cs =>
    match cs.takeWhile Char.isDigit with
    | [] => (.absent, cs)
    | ds => (.given (Text.decimalValue ds), cs.dropWhile Char.isDigit)

/-- The precision in front of a text, and the rest of it: a point alone is a precision of zero. -/
def precision : Text → Measure × Text
  | '.' :: cs =>
    match measure cs with
    | (.absent, cs) => (.given 0, cs)
    | r => r
  | cs => (.absent, cs)

/-- A text without a mark of size in front, which means nothing. -/
def withoutSize : Text → Text
  | c :: cs => if c = 'h' || c = 'l' || c = 'L' then cs else c :: cs
  | [] => []

/-- The place behind a percent sign, and the rest of the text. -/
def place? (t : Text) : Option (Place × Text) := do
  let (name, t) ← name? t
  let (flags, t) := flags {} t
  let (width, t) := measure t
  let (precision, t) := precision t
  match withoutSize t with
  | [] => none
  | letter :: rest => some ({ name, flags, width, precision, letter }, rest)

/-- The pieces of a template, found in so many steps. -/
def piecesIn : (steps : Nat) → Text → Option (List Piece)
  | _, [] => some []
  | 0, _ => none
  | steps + 1, '%' :: '%' :: cs => (piecesIn steps cs).map (.character '%' :: ·)
  | steps + 1, '%' :: cs => do
    let (p, rest) ← place? cs
    return .place p :: (← piecesIn steps rest)
  | steps + 1, c :: cs => (piecesIn steps cs).map (.character c :: ·)

/-- The pieces of a template. -/
def pieces? (t : Text) : Option (List Piece) := piecesIn t.length t

/-- A value laid out in a width: its sign, what shows its base, and the rest.  Zeros fill up between
the base and the rest. -/
def layOut (f : Flags) (width : Nat) (zeros : Bool) (sign base body : Text) : Text :=
  let used := sign.length + base.length + body.length
  if f.left then Text.padRight width ' ' (sign ++ base ++ body)
  else if zeros then sign ++ base ++ List.replicate (width - used) '0' ++ body
  else Text.padLeft width ' ' (sign ++ base ++ body)

/-- The sign of a number. -/
def signText (f : Flags) (negative : Bool) : Text :=
  if negative then ['-'] else if f.plus then ['+'] else if f.blank then [' '] else []

/-- An integer in a base. -/
def integerText (p : Place) (width : Nat) (precision : Option Nat) (base : Nat) (n : Int) : Text :=
  let digits := Text.padLeft (precision.getD 1) '0' (Nat.toDigits base n.natAbs)
  let digits := if p.letter = 'X' then Text.toUpper digits else digits
  let shownBase := p.flags.alternate && base ≠ 10
  layOut p.flags width p.flags.zero (signText p.flags (n < 0))
    (if shownBase then ['0', p.letter] else []) digits

/-- A double in one of the forms of numerals. -/
def doubleText (p : Place) (width : Nat) (precision : Option Nat) (form : Decimal.Form)
    (d : Double) : Text :=
  let body := form.write p.flags.alternate (precision.getD 6) d
  let body := if p.letter.isUpper then Text.toUpper body else body
  let negative := match d with
    | .finite s _ _ | .infinite s => s
    | .nan => false
  layOut p.flags width p.flags.zero (signText p.flags negative) [] body

/-- A text, cut off at a precision. -/
def textText (p : Place) (width : Nat) (precision : Option Nat) (t : Text) : Text :=
  layOut p.flags width false [] [] (match precision with
    | some n => t.take n
    | none => t)

/-- The integer that an argument is. -/
def integer? : Data → Option Int
  | .scalar (.integer n) => some n
  | .scalar (.boolean b) => some (if b then 1 else 0)
  | _ => none

/-- The integer that an argument is without its fraction. -/
def truncated? : Data → Option Int
  | .scalar (.double (.finite s m e)) => some (Double.finite s m e).toInt
  | d => integer? d

/-- The double that an argument is. -/
def double? : Data → Option Double
  | .scalar (.double d) => some d
  | d => (integer? d).bind Double.ofInt?

/-- The character that an argument is or that it is the number of. -/
def character? : Data → Option Char
  | .scalar (.text [c]) => some c
  | d => (integer? d).bind fun n =>
    if h : 0 ≤ n ∧ n.toNat.isValidChar then some (Char.ofNatAux n.toNat h.2) else none

/-- A text with all but ASCII characters escaped. -/
def asciiOnly (t : Text) : Text :=
  t.flatMap fun c => if c.toNat < 128 then [c] else Text.escapeCode c.toNat

/-- An argument written in a place. -/
def write? (p : Place) (width : Nat) (precision : Option Nat) (d : Data) : Option Text :=
  let inBase (base : Nat) (n : Option Int) : Option Text :=
    n.map (integerText p width precision base)
  let inForm (form : Decimal.Form) : Option Text :=
    (double? d).map (doubleText p width precision form)
  let inWords (t : Text) : Option Text :=
    if d.isSpellable then some (textText p width precision t) else none
  match p.letter with
  | 's' => inWords d.shown
  | 'r' => inWords d.written
  | 'a' => inWords (asciiOnly d.written)
  | 'd' | 'i' | 'u' => inBase 10 ((truncated? d).filter fun n => (Scalar.integer n).isSpellable)
  | 'o' => inBase 8 (integer? d)
  | 'x' | 'X' => inBase 16 (integer? d)
  | 'e' | 'E' => inForm .scientific
  | 'f' | 'F' => inForm .fixed
  | 'g' | 'G' => inForm .general
  | 'c' => (character? d).map fun c => textText p width none [c]
  | _ => none

/-- The greatest measure. -/
def Measure.limit : Nat := 2147483647

/-- A measure as it can be used: it must not be too great. -/
def Measure.check (n : Int) : Option Int := if n.natAbs ≤ limit then some n else none

/-- What places take their arguments from. -/
inductive Supply where
  /-- The arguments, in order. -/
  | inOrder (arguments : List Data)
  /-- A map whose entries places name, and what the next place takes: the map itself or what was
  named last, unless it is taken already. -/
  | byName (entries : List (Scalar × Data)) (next : Option Data)

/-- What arguments supply: a single map that is not empty supplies its entries. -/
def Supply.of : List Data → Supply
  | [.map (e :: es)] => .byName (e :: es) (some (.map (e :: es)))
  | arguments => .inOrder arguments

/-- The supply with the argument that a place names as the next one. -/
def Supply.select? (s : Supply) : Option Text → Option Supply
  | none => some s
  | some name =>
    match s with
    | .inOrder _ => none
    | .byName es _ =>
      (Entries.getBy? Scalar.sameKey (.text name) es).map fun d => .byName es (some d)

/-- The next argument, and what is left. -/
def Supply.take? : Supply → Option (Data × Supply)
  | .inOrder (d :: ds) => some (d, .inOrder ds)
  | .byName es (some d) => some (d, .byName es none)
  | .inOrder [] | .byName _ none => none

/-- Whether no argument is left that some place must take. -/
def Supply.isSpent : Supply → Bool
  | .inOrder arguments => arguments.isEmpty
  | .byName .. => true

/-- A measure with the arguments that it can take: its value, if it has one, and what is left. -/
def Measure.take : Measure → Supply → Option (Option Int × Supply)
  | .absent, s => some (none, s)
  | .given n, s => (check n).map fun n => (some n, s)
  | .argument, s => do
    let (d, s) ← s.take?
    return (some (← (integer? d).bind check), s)

/-- A place with the arguments that it can take: what is written, and what is left. -/
def Place.fill? (p : Place) (s : Supply) : Option (Text × Supply) := do
  let s ← s.select? p.name
  let (width, s) ← p.width.take s
  let (precision, s) ← p.precision.take s
  let width := width.getD 0
  let p := if width < 0 then { p with flags := { p.flags with left := true } } else p
  if p.letter = '%' then return (['%'], s)
  let (d, s) ← s.take?
  return (← write? p width.natAbs (precision.map Int.toNat) d, s)

/-- Pieces with arguments in their places, and what is left. -/
def fillPieces : List Piece → Supply → Option (Text × Supply)
  | [], s => some ([], s)
  | .character c :: ps, s => (fillPieces ps s).map fun (t, s) => (c :: t, s)
  | .place p :: ps, s => do
    let (t, s) ← p.fill? s
    let (more, s) ← fillPieces ps s
    return (t ++ more, s)

/-- A template with arguments in its places; every argument must have one, unless they have
names. -/
def fill (t : Text) (arguments : List Data) : Option Text := do
  let (t, left) ← fillPieces (← pieces? t) (.of arguments)
  if left.isSpent then return t else none

end Template

end StyleImport
