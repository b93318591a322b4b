/-
Patterns for the names of files.

In a pattern `*` stands for any run of characters, `?` for any one character and `[…]` for one
character of a set: single characters and ranges such as `a-z`, all but those if the set starts with
`!`.  A bracket that is never closed stands for itself.

* `Pattern.parse` — the pieces of a pattern;
* `Pattern.accepts` — whether pieces describe a name.
-/
import StyleImport.Text.Basic

namespace StyleImport

namespace Pattern

/-- A piece of a pattern. -/
inductive Piece where
  /-- Any run of characters. -/
  | run
  /-- One character of the ranges, or, if `negated`, one outside of them. -/
  | oneOf (negated : Bool) (ranges : List (Char × Char))
  /-- The character itself. -/
  | character (c : Char)
  deriving DecidableEq, Repr

/-- Any one character: one that is not in the empty set. -/
def Piece.one : Piece := .oneOf true []

/-- The characters that make a name a pattern. -/
def isMagic (c : Char) : Bool := c = '*' || c = '?' || c = '['

/-- Whether a path holds a pattern. -/
def hasMagic (p : Text) : Bool := p.any isMagic

/-- What stands in the brackets of a set, given the text after the opening bracket.  A closing
bracket right at the start, or right after the `!` there, belongs to the set. -/
def body? (cs : Text) : Option Text :=
  let lead := if cs.head? = some '!' then 1 else 0
  let lead := if (cs.drop lead).head? = some ']' then lead + 1 else lead
  let length := lead + ((cs.drop lead).takeWhile (· ≠ ']')).length
  if cs.length ≤ length then none else some (cs.take length)

/-- The pieces of a set between the hyphens that make ranges.  A hyphen makes a range only after at
least `skip` characters; `chunk` holds the characters since the last such hyphen, the last one
first. -/
def chunks (skip : Nat) (chunk : Text) : Text → List Text
  | [] => [chunk.reverse]
  | c :: cs =>
    if skip = 0 && c = '-' then chunk.reverse :: chunks 2 [] cs
    else chunks (skip - 1) (c :: chunk) cs

/-- The chunks with a hyphen at the very end of the set taken as itself. -/
def closeChunks : List Text → List Text
  | [chunk, []] => [chunk ++ ['-']]
  | chunk :: rest => chunk :: closeChunks rest
  | [] => []

/-- The chunks with empty ranges, whose ends stand the wrong way round, taken out. -/
def dropEmptyRanges : List Text → List Text
  | [] => []
  | chunk :: rest =>
    match dropEmptyRanges rest with
    | [] => [chunk]
    | next :: rest =>
      match chunk.getLast?, next.head? with
      | some low, some high =>
        if high.toNat < low.toNat then (chunk.dropLast ++ next.tail) :: rest
        else chunk :: next :: rest
      | _, _ => chunk :: next :: rest

/-- Chunks one after the other, `none` standing for the hyphen between two of them. -/
def withHyphens : List Text → List (Option Char)
  | [] => []
  | [chunk] => chunk.map some
  | chunk :: rest => chunk.map some ++ none :: withHyphens rest

/-- The ranges of a set; a single character is a range of its own. -/
def ranges : List (Option Char) → List (Char × Char)
  | some low :: none :: some high :: rest => (low, high) :: ranges rest
  | some c :: rest => (c, c) :: ranges rest
  | none :: rest => ('-', '-') :: ranges rest
  | [] => []

/-- The piece of a set. -/
def ofBody (body : Text) : Piece :=
  let parts :=
    if body.contains '-' then
      dropEmptyRanges (closeChunks (chunks (if body.head? = some '!' then 2 else 1) [] body))
    else [body]
  match withHyphens parts with
  | some '!' :: rest => .oneOf true (ranges rest)
  | all => .oneOf false (ranges all)

/-- The pieces of a pattern; the first `skip` characters belong to a set that was read already. -/
def parseFrom : (skip : Nat) → Text → List Piece
  | _, [] => []
  | skip + 1, _ :: cs => parseFrom skip cs
  | 0, c :: cs =>
    if c = '*' then .run :: parseFrom 0 cs
    else if c = '?' then .one :: parseFrom 0 cs
    else
      match if c = '[' then body? cs else none with
      | some body => ofBody body :: parseFrom (body.length + 1) cs
      | none => .character c :: parseFrom 0 cs

/-- The pieces of a pattern. -/
def parse (t : Text) : List Piece := parseFrom 0 t

/-- Whether a character lies in one of the ranges. -/
def isIn (ranges : List (Char × Char)) (c : Char) : Bool :=
  ranges.any fun (low, high) => low.toNat ≤ c.toNat && c.toNat ≤ high.toNat

/-- Whether the pieces describe a name. -/
def accepts : List Piece → Text → Bool
  | [], name => name.isEmpty
  | .run :: pieces, [] => accepts pieces []
  | .run :: pieces, c :: cs => accepts pieces (c :: cs) || accepts (.run :: pieces) cs
  | .oneOf negated ranges :: pieces, c :: cs =>
    (isIn ranges c != negated) && accepts pieces cs
  | .character c' :: pieces, c :: cs => c' = c && accepts pieces cs
  | _ :: _, [] => false
termination_by pieces name => pieces.length + name.length

end Pattern

end StyleImport
