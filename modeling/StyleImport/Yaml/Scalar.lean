/-
The scalars of a YAML text.

A scalar is written plain, between single or double quotes, or as a block of lines.  Over line ends
it is folded: one line end is a space, more are one less; in a literal block they are kept.

* `plain`, `quoted`, `block` — a scalar at a cursor and the cursor after it.
-/
import StyleImport.Json.Token
import StyleImport.Yaml.Cursor

namespace StyleImport

namespace Yaml

/-- Line ends in front, as scalars keep them; characters that satisfy `blank` between them are
skipped. -/
def lineEnds (blank : Char → Bool) : (tries : Nat) → Cursor → Text × Cursor
  | 0, c => ([], c)
  | tries + 1, c =>
    let c := c.skipWhile blank
    match c.lineEnd? with
    | none => ([], c)
    | some (x, c) =>
      let (xs, c) := lineEnds blank tries c
      (x :: xs, c)

/-- What the first line end and those after it come to in a folded scalar. -/
def fold (first : Char) (more : Text) : Text :=
  if first ≠ '\n' then first :: more
  else if more = [] then [' ']
  else more

/-- The line ends in front of the next line of a plain scalar, up to a document separator: none if
there is one. -/
def plainLineEnds : (tries : Nat) → Cursor → Option Text × Cursor
  | 0, c => (some [], c)
  | tries + 1, c =>
    if c.atSeparator && c.column = 0 then (none, c)
    else
      let c := c.skipWhile (· = ' ')
      match c.lineEnd? with
      | none => (some [], c)
      | some (x, c) =>
        let (xs, c) := plainLineEnds tries c
        (xs.map (x :: ·), c)

/-- The space between two words of a plain scalar, the cursor after it and whether it holds a line
end.  No space means that the scalar is over. -/
def plainGap (c : Cursor) : Text × Cursor × Bool :=
  let (blanks, c) := c.takeWhile (· = ' ')
  match c.lineEnd? with
  | none => (blanks, c, false)
  | some (x, c) =>
    match plainLineEnds (c.rest.length + 1) c with
    | (none, c) => ([], c, true)
    | (some more, c) => (fold x more, c, true)

/-- The characters that end a word of a plain scalar inside brackets. -/
def isFlowMark (c : Char) : Bool := c = ',' || c = '[' || c = ']' || c = '{' || c = '}'

/-- A word of a plain scalar: it ends at a separator, at a colon that stands before one and, inside
brackets, at the marks that have a meaning there. -/
def plainWord (inFlow : Bool) : Text → Text
  | [] => []
  | x :: rest =>
    let colonEnds := x = ':' &&
      (endsWord rest.head? || (inFlow && rest.head?.any isFlowMark))
    if isGap x || colonEnds || (inFlow && (isFlowMark x || x = '?')) then []
    else x :: plainWord inFlow rest

/-- The rest of a plain scalar after the words `done` and a gap, on lines that are indented by at
least `indent`: the scalar, the cursor after it and whether a line end was passed since its last
word. -/
def plainWords (inFlow : Bool) (indent : Int) :
    (tries : Nat) → (done gap : Text) → (passed : Bool) → Cursor → Text × Cursor × Bool
  | 0, done, _, passed, c => (done, c, passed)
  | tries + 1, done, gap, passed, c =>
    let word := if c.next? = some '#' then [] else plainWord inFlow c.rest
    if word = [] then (done, c, passed)
    else
      let done := done ++ gap ++ word
      let (gap, c, passed) := plainGap (c.forward word.length)
      if gap = [] || c.next? = some '#' || (!inFlow && (c.column : Int) < indent) then
        (done, c, passed)
      else plainWords inFlow indent tries done gap passed c

/-- A plain scalar at a cursor: its text, the cursor after it and whether a line end was passed
after it. -/
def plain (inFlow : Bool) (indent : Int) (c : Cursor) : Text × Cursor × Bool :=
  plainWords inFlow indent (c.rest.length + 1) [] [] false c

/-- The characters that letters after a backslash stand for in a double-quoted scalar. -/
def escapes : List (Char × Nat) :=
  [('0', 0), ('a', 7), ('b', 8), ('t', 9), ('\t', 9), ('n', 10), ('v', 11), ('f', 12), ('r', 13),
    ('e', 27), (' ', 32), ('"', 34), ('\\', 92), ('/', 47), ('N', 0x85), ('_', 0xA0),
    ('L', 0x2028), ('P', 0x2029)]

/-- The number of hexadecimal digits after a letter that spells a code point. -/
def escapeDigits (c : Char) : Option Nat :=
  if c = 'x' then some 2 else if c = 'u' then some 4 else if c = 'U' then some 8 else none

/-- The value of hexadecimal digits, or the first character that is none. -/
def hexValue (value : Nat) : (digits : Nat) → Text → Except (Option Char) Nat
  | 0, _ => .ok value
  | _ + 1, [] => .error none
  | digits + 1, c :: cs =>
    match Json.hexDigit? c with
    | some d => hexValue (value * 16 + d) digits cs
    | none => .error (some c)

/-- A character as faults show it; the end of the text is shown as a zero character. -/
def shownChar (c : Option Char) : Text := Text.quoted [c.getD '\x00']

/-- The fault of a quoted scalar that starts at `start`. -/
def quotedFault (isDouble : Bool) (start : Mark) (problem : Text) (c : Cursor) : Fault :=
  let what : Text := if isDouble then "while scanning a double-quoted scalar"
    else "while scanning a quoted scalar"
  { context := some (what, start), problem, mark := c.mark }

/-- The line ends inside a quoted scalar. -/
def quotedLineEnds (start : Mark) : (tries : Nat) → Cursor → Except Fault (Text × Cursor)
  | 0, c => .ok ([], c)
  | tries + 1, c =>
    if c.atSeparator then
      .error (quotedFault false start "found unexpected document separator" c)
    else
      let c := c.skipWhile fun x => x = ' ' || x = '\t'
      match c.lineEnd? with
      | none => .ok ([], c)
      | some (x, c) => (quotedLineEnds start tries c).map fun (xs, c) => (x :: xs, c)

/-- Spaces and line ends inside a quoted scalar. -/
def quotedGap (start : Mark) (c : Cursor) : Except Fault (Text × Cursor) :=
  let (blanks, c) := c.takeWhile fun x => x = ' ' || x = '\t'
  if c.rest = [] then .error (quotedFault false start "found unexpected end of stream" c)
  else match c.lineEnd? with
    | none => .ok (blanks, c)
    | some (x, c) => (quotedLineEnds start (c.rest.length + 1) c).map fun (xs, c) => (fold x xs, c)

/-- What an escape in a double-quoted scalar stands for; the cursor is after the backslash. -/
def escaped (start : Mark) (c : Cursor) : Except Fault (Text × Cursor) :=
  match c.next? with
  | none => .error (quotedFault true start ("found unknown escape character " ++ shownChar none) c)
  | some x =>
    match escapes.lookup x, escapeDigits x, c.lineEnd? with
    | some n, _, _ => .ok ([Char.ofNat n], c.step)
    | none, some digits, _ =>
      let c := c.step
      match hexValue 0 digits c.rest with
      | .ok n => .ok ([Char.ofNat n], c.forward digits)
      | .error found =>
        .error (quotedFault true start ("expected escape sequence of " ++ Text.ofNat digits
          ++ " hexadecimal numbers, but found " ++ shownChar found) c)
    | none, none, some (_, c) => quotedLineEnds start (c.rest.length + 1) c
    | none, none, none =>
      .error (quotedFault true start ("found unknown escape character " ++ shownChar (some x)) c)

/-- The rest of a quoted scalar up to its closing quote. -/
def quotedRest (isDouble : Bool) (start : Mark) :
    (tries : Nat) → Cursor → Except Fault (Text × Cursor)
  | 0, c => .error (quotedFault isDouble start "found unexpected end of stream" c)
  | tries + 1, c =>
    let goOn (t : Text) (c : Cursor) : Except Fault (Text × Cursor) :=
      (quotedRest isDouble start tries c).map fun (more, c) => (t ++ more, c)
    match c.next? with
    | none => .error (quotedFault false start "found unexpected end of stream" c)
    | some x =>
      if isGap x then
        match quotedGap start c with
        | .ok (t, c) => goOn t c
        | .error f => .error f
      else if isDouble then
        if x = '"' then .ok ([], c.step)
        else if x = '\\' then
          match escaped start c.step with
          | .ok (t, c) => goOn t c
          | .error f => .error f
        else goOn [x] c.step
      else if x = '\'' then
        if c.second? = some '\'' then goOn [x] (c.forward 2) else .ok ([], c.step)
      else goOn [x] c.step

/-- A quoted scalar at a cursor. -/
def quoted (isDouble : Bool) (c : Cursor) : Except Fault (Text × Cursor) :=
  quotedRest isDouble c.mark (c.rest.length + 1) c.step

/-- How the line ends at the end of a block are treated. -/
inductive Chomping where
  /-- All of them are dropped. -/
  | strip
  /-- One is kept. -/
  | clip
  /-- All of them are kept. -/
  | keep
  deriving DecidableEq, Repr

/-- What stands behind the mark of a block: its chomping and its own indentation. -/
structure BlockHeader where
  /-- How line ends at the end are treated. -/
  chomping : Chomping := .clip
  /-- By how much the block is indented more than what is around it, if that is said. -/
  increment : Option Nat := none

/-- The fault of a block that starts at `start`. -/
def blockFault (start : Mark) (problem : Text) (c : Cursor) : Fault :=
  { context := some ("while scanning a block scalar", start), problem, mark := c.mark }

/-- The chomping that a character stands for. -/
def chomping? (x : Option Char) : Option Chomping :=
  if x = some '+' then some .keep else if x = some '-' then some .strip else none

/-- The increment that a character stands for. -/
def increment? (start : Mark) (c : Cursor) : Except Fault (Option Nat × Cursor) :=
  match c.next? with
  | some x =>
    if x = '0' then
      .error (blockFault start
        "expected indentation indicator in the range 1-9, but found 0" c)
    else if x.isDigit then .ok (some (x.toNat - '0'.toNat), c.step)
    else .ok (none, c)
  | none => .ok (none, c)

/-- The header of a block, up to the end of its line. -/
def blockHeader (start : Mark) (c : Cursor) : Except Fault (BlockHeader × Cursor) := do
  let (header, c) ← match chomping? c.next? with
    | some chomping => do
      let (increment, c) ← increment? start c.step
      pure (({ chomping, increment } : BlockHeader), c)
    | none => do
      let (increment, c) ← increment? start c
      match increment, chomping? c.next? with
      | some n, some chomping => pure ({ chomping, increment := some n }, c.step)
      | increment, _ => pure ({ increment }, c)
  if !(endsLine c.next? || c.next? = some ' ') then
    throw (blockFault start
      ("expected chomping or indentation indicators, but found " ++ shownChar c.next?) c)
  let c := c.skipWhile (· = ' ')
  let c := if c.next? = some '#' then c.skipWhile (!isLineEnd ·) else c
  if !endsLine c.next? then
    throw (blockFault start
      ("expected a comment or a line break, but found " ++ shownChar c.next?) c)
  match c.lineEnd? with
  | some (_, c) => return (header, c)
  | none => return (header, c)

/-- The cursor after spaces up to a column. -/
def skipIndent (indent : Int) : (tries : Nat) → Cursor → Cursor
  | 0, c => c
  | tries + 1, c =>
    if (c.column : Int) < indent && c.next? = some ' ' then skipIndent indent tries c.step else c

/-- The empty lines in front of a line of a block that is indented by `indent`. -/
def blockLineEnds (indent : Int) : (tries : Nat) → Cursor → Text × Cursor
  | 0, c => ([], c)
  | tries + 1, c =>
    let c := skipIndent indent c.rest.length c
    match c.lineEnd? with
    | none => ([], c)
    | some (x, c) =>
      let (xs, c) := blockLineEnds indent tries c
      (x :: xs, c)

/-- The empty lines at the start of a block, and the widest indentation among them and its first
line. -/
def blockStart (widest : Nat) : (tries : Nat) → Cursor → Text × Nat × Cursor
  | 0, c => ([], widest, c)
  | tries + 1, c =>
    if c.next? = some ' ' then blockStart (max widest c.step.column) tries c.step
    else match c.lineEnd? with
      | none => ([], widest, c)
      | some (x, c) =>
        let (xs, widest, c) := blockStart widest tries c
        (x :: xs, widest, c)

/-- Whether a line starts with something else than a blank. -/
def startsFlush (c : Cursor) : Bool := !(c.next? = some ' ' || c.next? = some '\t')

/-- The lines of a block that is indented by `indent`, after the empty lines `before`: its text
without the line ends after the last line, the line end of that line, the line ends after it, and
the cursor. -/
def blockLines (folded : Bool) (indent : Int) :
    (tries : Nat) → (before : Text) → Cursor → Text × Text × Text × Cursor
  | 0, before, c => ([], [], before, c)
  | tries + 1, before, c =>
    let flush := startsFlush c
    let (line, c) := c.takeWhile (!isLineEnd ·)
    let (lineEnd, c) : Text × Cursor := match c.lineEnd? with
      | some (x, c) => ([x], c)
      | none => ([], c)
    let (ends, c) := blockLineEnds indent (c.rest.length + 1) c
    if (c.column : Int) = indent && c.rest ≠ [] then
      let joint : Text :=
        if folded && lineEnd = ['\n'] && flush && startsFlush c then
          if ends = [] then [' '] else []
        else lineEnd
      let (more, last, trailing, c) := blockLines folded indent tries ends c
      (before ++ line ++ joint ++ more, last, trailing, c)
    else (before ++ line, lineEnd, ends, c)

/-- A block at a cursor, inside a collection that is indented by `indent`. -/
def block (folded : Bool) (indent : Int) (c : Cursor) : Except Fault (Text × Cursor) := do
  let (header, c) ← blockHeader c.mark c.step
  let least := max (indent + 1) 1
  let (before, own, c) : Text × Int × Cursor := match header.increment with
    | none =>
      let (xs, widest, c) := blockStart 0 (c.rest.length + 1) c
      (xs, max least widest, c)
    | some n =>
      let own := least + n - 1
      let (xs, c) := blockLineEnds own (c.rest.length + 1) c
      (xs, own, c)
  let (t, last, trailing, c) : Text × Text × Text × Cursor :=
    if (c.column : Int) = own && c.rest ≠ [] then
      blockLines folded own (c.rest.length + 1) before c
    else ([], [], before, c)
  match header.chomping with
  | .strip => return (t, c)
  | .clip => return (t ++ last, c)
  | .keep => return (t ++ last ++ trailing, c)

end Yaml

end StyleImport
