/-
Text laid out in the columns of a console.

Tabs reach to the next eighth column.  A line that is too long is broken behind words.  A word that
is too long by itself is cut into pieces or, in narrow places, ends in dots.

* `wrap` — the lines that a text takes up in so many columns;
* `Console.print` — what a console shows of some markup.
-/
import StyleImport.Console.Markup

namespace StyleImport

namespace Console

/-- The distance of the columns that tabs reach to. -/
def tabStop : Nat := 8

/-- Whether a character takes up no column. -/
def isInvisible (c : Char) : Bool := c.toNat < 32 || (127 ≤ c.toNat && c.toNat < 160)

/-- The number of columns that a text takes up. -/
def columns (t : Text) : Nat := t.countP (!isInvisible ·)

/-- Whether a character separates words. -/
def isBlank (c : Char) : Bool :=
  let n := c.toNat
  n = 32 || (9 ≤ n && n ≤ 13) || (28 ≤ n && n ≤ 31) || n = 0x85 || n = 0xA0 || n = 0x1680
    || (0x2000 ≤ n && n ≤ 0x200A) || n = 0x2028 || n = 0x2029 || n = 0x202F || n = 0x205F
    || n = 0x3000

/-- A text without blanks at its end. -/
def trimEnd (t : Text) : Text := Text.dropEndWhile isBlank t

/-- A line with its tabs written as spaces, from a column on. -/
def expandTabs (column : Nat) : Text → Text
  | [] => []
  | '\t' :: cs =>
    let width := tabStop - column % tabStop
    List.replicate width ' ' ++ expandTabs (column + width) cs
  | c :: cs => c :: expandTabs (column + columns [c]) cs

/-- The words of a line with the blanks behind each, and those in front of the first; `word` is what
was read of a word, and `inBlanks` says whether its end was reached. -/
def wordsFrom (word : Text) (inBlanks : Bool) : Text → List Text
  | [] => if word.all isBlank then [] else [word]
  | c :: cs =>
    if isBlank c then wordsFrom (word ++ [c]) (!word.all isBlank) cs
    else if inBlanks then word :: wordsFrom [c] false cs
    else wordsFrom (word ++ [c]) false cs

/-- The words of a line. -/
def words (t : Text) : List Text := wordsFrom [] false t

/-- A text cut into pieces of at most so many columns; `piece` is what was read of a piece. -/
def chop (width : Nat) (piece : Text) : Text → List Text
  | [] => [piece]
  | c :: cs =>
    if width < columns (piece ++ [c]) then piece :: chop width [c] cs
    else chop width (piece ++ [c]) cs

/-- What becomes of a word that is too long for a line. -/
inductive Overflow where
  /-- It is cut into pieces. -/
  | cut
  /-- Its end is left out, and dots say so. -/
  | dots
  deriving DecidableEq, Repr

/-- The lines of a word that is too long for one. -/
def Overflow.pieces (overflow : Overflow) (width : Nat) (word : Text) : List Text :=
  match overflow with
  | .cut => chop width [] word
  | .dots => [word]

/-- The lines that words take up behind what a line holds already.  `isFirst` says that no word came
before, so that no line has to be broken in front of one that is too long. -/
def breakLines (overflow : Overflow) (width : Nat) (line : Text) (isFirst : Bool) :
    List Text → List Text
  | [] => [line]
  | w :: ws =>
    let needed := columns (trimEnd w)
    if columns line + needed ≤ width then breakLines overflow width (line ++ w) false ws
    else if width < needed then
      let pieces := overflow.pieces width w
      (if isFirst then [] else [line]) ++ pieces.dropLast
        ++ breakLines overflow width (pieces.getLast?.getD []) false ws
    else line :: breakLines overflow width w false ws

/-- A line without the blanks at its end that reach over the width. -/
def trimOver (width : Nat) (t : Text) : Text :=
  let blanks := t.length - (trimEnd t).length
  t.take (t.length - min blanks (t.length - width))

/-- The characters at the front of a text that take up so many columns. -/
def takeColumns : (width : Nat) → Text → Text
  | _, [] => []
  | width, c :: cs =>
    if isInvisible c then c :: takeColumns width cs
    else match width with
      | 0 => []
      | width + 1 => c :: takeColumns width cs

/-- A line that ends in dots if it is longer than the width. -/
def shorten (width : Nat) (t : Text) : Text :=
  if width < columns t then takeColumns (width - 1) t ++ ['…'] else t

/-- The lines that a line takes up in so many columns. -/
def wrapLine (overflow : Overflow) (width : Nat) (t : Text) : List Text :=
  let t := expandTabs 0 t
  let lines := match words t with
    | [] => [t]
    | ws => breakLines overflow width [] true ws
  lines.map fun line => shorten width (trimOver width line)

/-- The lines that a text takes up in so many columns. -/
def wrap (width : Nat) (t : Text) (overflow : Overflow := .cut) : List Text :=
  (Text.pieces '\n' t).flatMap (wrapLine overflow width)

/-- The number of columns of a console. -/
def width : Nat := 4000

/-- Lines, each with its end. -/
def unlines (ts : List Text) : Text := ts.flatMap (· ++ ['\n'])

/-- What a console shows of some markup. -/
def print (markup : Text) : Text := unlines (wrap width (Markup.plain markup))

end Console

end StyleImport
