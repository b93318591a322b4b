/-
A place in a YAML text.

A cursor is the rest of the text and the line, column and offset of where it starts.  Moving it
forward counts lines: a carriage return with its line feed is one line end, and so are the three
Unicode line ends alone.

* `Cursor.forward`, `Cursor.skipWhile` — moving on;
* `Cursor.lineEnd?` — a line end in front, in the form in which scalars keep it;
* `Fault` — what is wrong with a text, and where.
-/
import StyleImport.Text.Quoted

namespace StyleImport

namespace Yaml

/-- A line and column, counted from zero. -/
structure Mark where
  /-- The line. -/
  line : Nat := 0
  /-- The column. -/
  column : Nat := 0
  deriving DecidableEq, Repr

/-- What is wrong with a text, and where. -/
structure Fault where
  /-- What was being read, and where it started. -/
  context : Option (Text × Mark) := none
  /-- What is wrong. -/
  problem : Text
  /-- Where. -/
  mark : Mark
  deriving DecidableEq, Repr

namespace Fault

/-- A mark in words. -/
def place (name : Text) (m : Mark) : Text :=
  "  in \"" ++ name ++ "\", line " ++ Text.ofNat (m.line + 1) ++ ", column "
    ++ Text.ofNat (m.column + 1)

/-- A fault of the text called `name` in words, line by line. -/
def message (name : Text) (f : Fault) : Text :=
  let context := match f.context with
    | none => []
    | some (what, m) => if m = f.mark then [what] else [what, place name m]
  Text.joinWith ['\n'] (context ++ [f.problem, place name f.mark])

end Fault

/-- A place in a text. -/
structure Cursor where
  /-- The rest of the text. -/
  rest : Text
  /-- The number of characters before. -/
  offset : Nat := 0
  /-- The line. -/
  line : Nat := 0
  /-- The column. -/
  column : Nat := 0
  deriving Repr

/-- The characters that end a line. -/
def isLineEnd (c : Char) : Bool :=
  c = '\r' || c = '\n' || c.toNat = 0x85 || c.toNat = 0x2028 || c.toNat = 0x2029

/-- Whether a character separates words: a space, a tab or a line end. -/
def isGap (c : Char) : Bool := c = ' ' || c = '\t' || isLineEnd c

/-- Whether nothing or a separator comes. -/
def endsWord : Option Char → Bool
  | none => true
  | some c => isGap c

/-- Whether nothing or a line end comes. -/
def endsLine : Option Char → Bool
  | none => true
  | some c => isLineEnd c

/-- The mark that starts a text and is no part of it. -/
def byteOrderMark : Char := '\uFEFF'

namespace Cursor

/-- The cursor at the start of a text. -/
def start (t : Text) : Cursor := { rest := t }

/-- The line and column of a cursor. -/
def mark (c : Cursor) : Mark := ⟨c.line, c.column⟩

/-- The next character. -/
def next? (c : Cursor) : Option Char := c.rest.head?

/-- The character after the next one. -/
def second? (c : Cursor) : Option Char := c.rest.tail.head?

/-- The cursor after the next character. -/
def step (c : Cursor) : Cursor :=
  match c.rest with
  | [] => c
  | x :: rest =>
    if isLineEnd x && !(x = '\r' && rest.head? = some '\n') then
      { rest, offset := c.offset + 1, line := c.line + 1, column := 0 }
    else
      { rest, offset := c.offset + 1, line := c.line
        column := if x = byteOrderMark then c.column else c.column + 1 }

/-- The cursor `n` characters on. -/
def forward (c : Cursor) : Nat → Cursor
  | 0 => c
  | n + 1 => c.step.forward n

/-- The longest run of characters in front that satisfy `p`, and the cursor after it. -/
def takeWhile (c : Cursor) (p : Char → Bool) : Text × Cursor :=
  let run := c.rest.takeWhile p
  (run, c.forward run.length)

/-- The cursor after the longest run of characters that satisfy `p`. -/
def skipWhile (c : Cursor) (p : Char → Bool) : Cursor := (c.takeWhile p).2

/-- A line end in front, as scalars keep it, and the cursor after it.  All line ends are kept as a
line feed but the two Unicode separators. -/
def lineEnd? (c : Cursor) : Option (Char × Cursor) :=
  match c.rest with
  | '\r' :: '\n' :: _ => some ('\n', c.forward 2)
  | x :: _ =>
    if isLineEnd x then
      some (if x.toNat = 0x2028 || x.toNat = 0x2029 then x else '\n', c.step)
    else none
  | [] => none

/-- Whether a document separator, three of the character `x`, comes next. -/
def atMarker (x : Char) (c : Cursor) : Bool :=
  c.rest.take 3 = [x, x, x] && endsWord (c.rest.drop 3).head?

/-- Whether a document separator of either kind comes next. -/
def atSeparator (c : Cursor) : Bool := c.atMarker '-' || c.atMarker '.'

end Cursor

end Yaml

end StyleImport
