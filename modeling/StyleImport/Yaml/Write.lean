/-
Documents written as YAML texts.

A map is written in lines, its keys in order if they can be compared; a list with hyphens, at the
column of the key that it belongs to.  A text is written plain where it is then read back as itself,
else between single quotes, and between double quotes if it holds characters that only escapes can
show.  Lines are folded at single spaces behind the eightieth column.

* `Layout.of` — in which of the three forms a text is written;
* `write` — the text of a map.
-/
import StyleImport.Yaml.Cursor
import StyleImport.Yaml.Scalars

namespace StyleImport

namespace Yaml

/-- The column behind which a line is folded. -/
def width : Nat := 80

/-- By how much a level is indented more than the one around it. -/
def indentStep : Nat := 2

/-- The start of a line: its end before it and as many spaces. -/
def newLine (indent : Nat) : Text := '\n' :: List.replicate indent ' '

/-- How a text is written. -/
inductive Layout where
  /-- As it is. -/
  | plain
  /-- Between single quotes. -/
  | single
  /-- Between double quotes, with escapes. -/
  | double
  deriving DecidableEq, Repr

/-- Whether a character can stand for itself outside of double quotes. -/
def standsForItself (c : Char) : Bool := c = '\n' || (' ' ≤ c && c ≤ '~')

/-- Whether a space and a line end stand next to each other. -/
def spaceMeetsLineEnd : Text → Bool
  | ' ' :: '\n' :: _ | '\n' :: ' ' :: _ => true
  | _ :: cs => spaceMeetsLineEnd cs
  | [] => false

/-- Whether a mark with a meaning of its own starts a text. -/
def startsWithMark (t : Text) : Bool :=
  let indicators : Text := "#,[]\x7b\x7d&*!|>'\"%@"
  match t with
  | c :: cs =>
    indicators.contains c || c.toNat = 96
      || ((c = '?' || c = ':' || c = '-') && endsWord cs.head?)
      || t.take 3 = ['-', '-', '-'] || t.take 3 = ['.', '.', '.']
  | [] => false

/-- Whether behind the first character a colon ends a word or a number sign starts one. -/
def holdsMark : Text → Bool
  | a :: b :: cs =>
    (b = ':' && endsWord cs.head?) || (b = '#' && isGap a) || holdsMark (b :: cs)
  | _ => false

/-- Whether a text can be written as it is. -/
def canBePlain (t : Text) : Bool :=
  Look.of t = .text && !startsWithMark t && !holdsMark t && !t.contains '\n'
    && t.head? ≠ some ' ' && t.getLast? ≠ some ' '

/-- The form in which a text is written. -/
def Layout.of (t : Text) : Layout :=
  if !t.all standsForItself || spaceMeetsLineEnd t then .double
  else if canBePlain t then .plain
  else .single

/-- A run of one sort of characters. -/
inductive Run where
  /-- Characters that are neither spaces nor line ends. -/
  | word (t : Text)
  /-- Spaces, as many as there are. -/
  | spaces (n : Nat)
  /-- Line ends, as many as there are. -/
  | lineEnds (n : Nat)
  deriving DecidableEq, Repr

/-- A run and a character in front of it, as one run if they are of one sort. -/
def Run.consTo (c : Char) : List Run → List Run
  | .spaces n :: rest =>
    if c = ' ' then .spaces (n + 1) :: rest
    else if c = '\n' then .lineEnds 1 :: .spaces n :: rest
    else .word [c] :: .spaces n :: rest
  | .lineEnds n :: rest =>
    if c = '\n' then .lineEnds (n + 1) :: rest
    else if c = ' ' then .spaces 1 :: .lineEnds n :: rest
    else .word [c] :: .lineEnds n :: rest
  | .word t :: rest =>
    if c = ' ' then .spaces 1 :: .word t :: rest
    else if c = '\n' then .lineEnds 1 :: .word t :: rest
    else .word (c :: t) :: rest
  | [] => if c = ' ' then [.spaces 1] else if c = '\n' then [.lineEnds 1] else [.word [c]]

/-- The runs of a text. -/
def Run.ofText (t : Text) : List Run := t.foldr Run.consTo []

/-- Runs written from a column on, with line ends indented.  A single space that is not at an end
may be written as a line end if lines may be folded; a line end is written twice, once more for a
run. -/
def writeRuns (canFold : Bool) (indent : Nat) : (isFirst : Bool) → (column : Nat) → List Run → Text
  | _, _, [] => []
  | _, column, .word t :: rest => t ++ writeRuns canFold indent false (column + t.length) rest
  | _, _, .lineEnds n :: rest =>
    List.replicate n '\n' ++ newLine indent ++ writeRuns canFold indent false indent rest
  | isFirst, column, .spaces n :: rest =>
    if canFold && n = 1 && width < column && !isFirst && !rest.isEmpty then
      newLine indent ++ writeRuns canFold indent false indent rest
    else List.replicate n ' ' ++ writeRuns canFold indent false (column + n) rest

/-- The letters that stand for characters after a backslash. -/
def escapeLetters : List (Nat × Char) :=
  [(0, '0'), (7, 'a'), (8, 'b'), (9, 't'), (10, 'n'), (11, 'v'), (12, 'f'), (13, 'r'), (27, 'e'),
    (34, '"'), (92, '\\'), (0x85, 'N'), (0xA0, '_'), (0x2028, 'L'), (0x2029, 'P')]

/-- Hexadecimal digits in capitals. -/
def capitalHex (digits n : Nat) : Text := Text.toUpper (Text.hex digits n)

/-- A character between double quotes, if it needs an escape. -/
def escape? (c : Char) : Option Text :=
  let n := c.toNat
  match escapeLetters.lookup n with
  | some letter => some ['\\', letter]
  | none =>
    if 0x20 ≤ n && n ≤ 0x7E then none
    else if n < 0x100 then some ('\\' :: 'x' :: capitalHex 2 n)
    else if n < 0x10000 then some ('\\' :: 'u' :: capitalHex 4 n)
    else some ('\\' :: 'U' :: capitalHex 8 n)

/-- A folded line end between double quotes: a backslash hides it, and another one keeps a space at
the start of the next line. -/
def hiddenLineEnd (indent : Nat) (next : Option Char) : Text :=
  '\\' :: newLine indent ++ (if next = some ' ' then ['\\'] else [])

/-- The column behind a hidden line end. -/
def hiddenColumn (indent : Nat) (next : Option Char) : Nat :=
  indent + (if next = some ' ' then 1 else 0)

/-- Characters between double quotes, written from a column on.  Lines are folded in front of a
space and next to an escape, but at neither end of the text. -/
def writeEscaped (canFold : Bool) (indent : Nat) :
    (isFirst afterEscape : Bool) → (column : Nat) → Text → Text
  | _, _, _, [] => []
  | isFirst, afterEscape, column, c :: cs =>
    let inside := canFold && !isFirst && !cs.isEmpty
    match escape? c with
    | none =>
      if inside && (c = ' ' || afterEscape) && width < column then
        hiddenLineEnd indent (some c)
          ++ c :: writeEscaped canFold indent false false (hiddenColumn indent (some c) + 1) cs
      else c :: writeEscaped canFold indent false false (column + 1) cs
    | some t =>
      let column := column + t.length
      if inside && width < column - 1 then
        t ++ hiddenLineEnd indent cs.head?
          ++ writeEscaped canFold indent false true (hiddenColumn indent cs.head?) cs
      else t ++ writeEscaped canFold indent false true column cs

/-- A text in its form, written from a column on. -/
def writeText (canFold : Bool) (indent column : Nat) (t : Text) : Text :=
  match Layout.of t with
  | .plain => writeRuns canFold indent true column (Run.ofText t)
  | .single =>
    '\'' :: writeRuns canFold indent true (column + 1)
      (Run.ofText (Text.replaceAll ['\''] ['\'', '\''] t)) ++ ['\'']
  | .double => '"' :: writeEscaped canFold indent true false (column + 1) t ++ ['"']

/-- The form of doubles: an exponent follows a point. -/
def doubleStyle : Decimal.Style :=
  { loneMantissa := ['.', '0'], infinity := ['.', 'i', 'n', 'f']
    notANumber := ['.', 'n', 'a', 'n'] }

/-- A scalar written from a column on. -/
def writeScalar (canFold : Bool) (indent column : Nat) : Scalar → Text
  | .null => "null"
  | .boolean true => "true"
  | .boolean false => "false"
  | .integer n => Text.ofInt n
  | .double d => doubleStyle.write d
  | .text t => writeText canFold indent column t

/-- The length that a key stays below if it is written in front of a colon, its type included. -/
def keyLimit : Nat := 128

/-- The length of the name of a scalar's type. -/
def typeLength : Scalar → Nat
  | .text _ | .integer _ => 5
  | .null | .boolean _ => 6
  | .double _ => 7

/-- Whether a key is written in front of a colon; a question mark stands before any other. -/
def isSimpleKey : Scalar → Bool
  | .text t =>
    t ≠ [] && t.all (fun c => c = '\r' || !isLineEnd c)
      && typeLength (.text t) + t.length < keyLimit
  | s => typeLength s + (writeScalar false 0 0 s).length < keyLimit

/-- A finite number as a whole number and the power of two that it is to be taken by. -/
def wholePart : Scalar → Int × Int
  | .integer n => (n, 0)
  | .double (.finite negative m e) => (if negative then -(m : Int) else m, e)
  | _ => (0, 0)

/-- The order of numbers. -/
def numberLe (a b : Scalar) : Bool :=
  match a.key, b.key with
  | .double (.infinite true), _ => true
  | _, .double (.infinite false) => true
  | .double (.infinite false), _ => false
  | _, .double (.infinite true) => false
  | a, b =>
    let (m, e) := wholePart a
    let (n, f) := wholePart b
    let low := min e f
    m * twoTo (e - low) ≤ n * twoTo (f - low)

/-- Entries in the order of their keys if all keys are texts or all are numbers, else as
they are. -/
def sorted {α : Type} (es : List (Scalar × α)) : List (Scalar × α) :=
  let isText (s : Scalar) : Bool := s matches .text _
  let isNumber (s : Scalar) : Bool := !(s matches .text _ | .null)
  if es.all fun e => isText e.1 then es.mergeSort fun a b => Text.le a.1.shown b.1.shown
  else if es.all fun e => isNumber e.1 then es.mergeSort fun a b => numberLe a.1 b.1
  else es

mutual

/-- A document written from the column `indent` on, behind a hyphen, a question mark or a colon that
stands alone. -/
def writeInline (indent : Nat) : Data → Text
  | .scalar s => writeScalar true indent indent s
  | .list [] => "[]"
  | .map [] => "\x7b\x7d"
  | .list items => Text.joinWith (newLine indent) (writeItems indent items)
  | .map es => Text.joinWith (newLine indent) ((sorted (writeEntries indent es)).map (·.2))

/-- The items of a list behind their hyphens, which stand at a column. -/
def writeItems (indent : Nat) : List Data → List Text
  | [] => []
  | d :: ds => ('-' :: ' ' :: writeInline (indent + indentStep) d) :: writeItems indent ds

/-- The entries of a map by key, written from a column on. -/
def writeEntries (indent : Nat) : List (Scalar × Data) → List (Scalar × Text)
  | [] => []
  | (k, d) :: es =>
    let inner := indent + indentStep
    let entry :=
      if isSimpleKey k then
        let key := writeScalar false inner indent k
        key ++ ':' :: writeValue indent (indent + key.length + 1) d
      else
        "? " ++ writeScalar true inner inner k ++ newLine indent ++ ": " ++ writeInline inner d
    (k, entry) :: writeEntries indent es

/-- The value of an entry of a map at the column `indent`, written from the column behind the colon
on. -/
def writeValue (indent column : Nat) : Data → Text
  | .scalar s => ' ' :: writeScalar true (indent + indentStep) (column + 1) s
  | .list [] => " []"
  | .map [] => " \x7b\x7d"
  | .list items => newLine indent ++ Text.joinWith (newLine indent) (writeItems indent items)
  | .map es =>
    let inner := indent + indentStep
    newLine inner ++ Text.joinWith (newLine inner) ((sorted (writeEntries inner es)).map (·.2))

end

/-- The text of a map. -/
def write (entries : List (Scalar × Data)) : Text := writeInline 0 (.map entries) ++ ['\n']

end Yaml

end StyleImport
