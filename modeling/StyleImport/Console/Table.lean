/-
Tables in a console.

A table has a title in the middle above it, a heavy frame around its heads and a light one around
its rows.  A column is as wide as the widest line in it.

* `Table.print` — what a console shows of a table.
-/
import StyleImport.Console.Wrapped

namespace StyleImport

/-- A column of a table. -/
structure Column where
  /-- Its head. -/
  head : Text
  /-- Whether its cells stand at the right. -/
  atRight : Bool := false
  deriving DecidableEq, Repr

/-- A table: its title, its columns and its rows, all as markup. -/
structure Table where
  /-- The title. -/
  title : Text
  /-- The columns. -/
  columns : List Column
  /-- The cells of each row. -/
  rows : List (List Text)

namespace Table

/-- Whether a character ends a line where the width of a cell is concerned. -/
def isLineEnd (c : Char) : Bool :=
  let n := c.toNat
  (10 ≤ n && n ≤ 13) || (28 ≤ n && n ≤ 30) || n = 0x85 || n = 0x2028 || n = 0x2029

/-- The width of the widest line of a cell. -/
def cellWidth (t : Text) : Nat :=
  let lines := Text.pieces '\n' (t.map fun c => if isLineEnd c then '\n' else c)
  (lines.map Console.columns).foldl max 0

/-- The width of the column at a position. -/
def columnWidth (t : Table) (n : Nat) (c : Column) : Nat :=
  (t.rows.map fun row => cellWidth (row.getD n [])).foldl max (cellWidth c.head)

/-- The widths of the columns. -/
def widths (t : Table) : List Nat := t.columns.mapIdx fun n c => t.columnWidth n c

/-- A line of a cell filled up to the width of its column. -/
def fill (width : Nat) (c : Column) (line : Text) : Text :=
  let blanks := List.replicate (width - Console.columns line) ' '
  if c.atRight then blanks ++ line else line ++ blanks

/-- The lines of a row: each cell wrapped in its column, between bars. -/
def rowLines (bar : Char) (columns : List (Nat × Column)) (cells : List Text) : List Text :=
  let wrapped := columns.zipWith (fun (width, _) cell => Console.wrap width cell .dots) cells
  let height := (wrapped.map List.length).foldl max 1
  (List.range height).map fun n =>
    let line := columns.zipWith (fun (width, c) lines =>
      ' ' :: fill width c (lines.getD n []) ++ [' ']) wrapped
    bar :: Text.joinWith [bar] line ++ [bar]

/-- A line of a frame. -/
def frameLine (left stroke joint right : Char) (widths : List Nat) : Text :=
  left :: Text.joinWith [joint] (widths.map fun w => List.replicate (w + 2) stroke) ++ [right]

/-- A line in the middle of so many columns. -/
def centred (width : Nat) (line : Text) : Text :=
  let line := Console.trimEnd line
  let blanks := width - Console.columns line
  List.replicate (blanks / 2) ' ' ++ line ++ List.replicate (blanks - blanks / 2) ' '

/-- The table with what is seen of its markup. -/
def visible (t : Table) : Table :=
  { title := Markup.plain t.title
    columns := t.columns.map fun c => { c with head := Markup.plain c.head }
    rows := t.rows.map (·.map Markup.plain) }

/-- What a console shows of a table. -/
def print (t : Table) : Text :=
  let t := t.visible
  let widths := t.widths
  let columns := widths.zip t.columns
  let frameWidth := widths.foldl (fun n w => n + w + 3) 1
  Console.unlines
    ((Console.wrap frameWidth t.title).map (centred frameWidth)
      ++ frameLine '┏' '━' '┳' '┓' widths
      :: rowLines '┃' columns (t.columns.map (·.head))
      ++ frameLine '┡' '━' '╇' '┩' widths
      :: t.rows.flatMap (rowLines '│' columns)
      ++ [frameLine '└' '─' '┴' '┘' widths])

end Table

end StyleImport
