/-
Markup in the output of the command line.

A tag is a bracket, a name that starts with a small letter or one of `#`, `/` and `@`, and the
closing bracket; no opening bracket stands inside.  Half of the backslashes in front of a tag stand
for themselves, and one more makes the tag plain text.

* `Markup.escape` — a text made safe inside markup;
* `Markup.plain` — what of some markup is seen, its tags taken out.
-/
import StyleImport.Text.Basic

namespace StyleImport

namespace Markup

/-- A piece of markup. -/
inductive Piece where
  /-- A character outside of every tag. -/
  | character (c : Char)
  /-- A tag with the number of backslashes in front of it and what stands in its brackets. -/
  | tag (slashes : Nat) (inner : Text)
  deriving DecidableEq, Repr

/-- Whether a tag's name can start with the character. -/
def startsTag (c : Char) : Bool := c.isLower || c = '#' || c = '/' || c = '@'

/-- What stands in the brackets of a tag, given the text after its opening bracket. -/
def inner? : Text → Option Text
  | [] => none
  | c :: cs =>
    let within (c : Char) : Bool := c ≠ '[' && c ≠ ']'
    if startsTag c && (cs.dropWhile within).head? = some ']' then
      some (c :: cs.takeWhile within)
    else none

/-- As many plain backslashes. -/
def backslashes (n : Nat) : List Piece := List.replicate n (.character '\\')

/-- The pieces of a text after `slashes` backslashes; the first `skip` characters belong to
a tag. -/
def piecesFrom (slashes : Nat) : (skip : Nat) → Text → List Piece
  | _, [] => backslashes slashes
  | skip + 1, _ :: cs => piecesFrom 0 skip cs
  | 0, c :: cs =>
    if c = '\\' then piecesFrom (slashes + 1) 0 cs
    else
      match if c = '[' then inner? cs else none with
      | some inner => .tag slashes inner :: piecesFrom 0 (inner.length + 1) cs
      | none => backslashes slashes ++ .character c :: piecesFrom 0 0 cs

/-- The pieces of some markup. -/
def pieces (t : Text) : List Piece := piecesFrom 0 0 t

/-- A tag in its brackets. -/
def bracketed (inner : Text) : Text := '[' :: inner ++ [']']

/-- A piece that says of itself that it is plain. -/
def Piece.escaped : Piece → Text
  | .character c => [c]
  | .tag slashes inner => List.replicate (2 * slashes + 1) '\\' ++ bracketed inner

/-- Whether a text ends in exactly one backslash. -/
def endsInOneBackslash (t : Text) : Bool :=
  match t.reverse with
  | '\\' :: '\\' :: _ => false
  | '\\' :: _ => true
  | _ => false

/-- A text made safe inside markup: what looks like a tag is escaped, and so is a single backslash
at the end, where a tag may follow. -/
def escape (t : Text) : Text :=
  let escaped := (pieces t).flatMap Piece.escaped
  if endsInOneBackslash escaped then escaped ++ ['\\'] else escaped

/-- What is seen of the pieces: a backslash before a plain bracket is not, and neither is a tag that
is not made plain by a backslash. -/
def visible : List Piece → Text
  | .character '\\' :: .character '[' :: rest => '[' :: visible rest
  | .character c :: rest => c :: visible rest
  | .tag slashes inner :: rest =>
    List.replicate (slashes / 2) '\\'
      ++ (if slashes % 2 = 1 then bracketed inner else []) ++ visible rest
  | [] => []

/-- The characters that a terminal would take for commands. -/
def isControl (c : Char) : Bool :=
  c.toNat = 7 || c.toNat = 8 || c.toNat = 11 || c.toNat = 12 || c.toNat = 13

/-- What is seen of some markup. -/
def plain (t : Text) : Text := (visible (pieces t)).filter (!isControl ·)

end Markup

end StyleImport
