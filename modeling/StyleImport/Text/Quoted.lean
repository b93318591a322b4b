/-
Quoted texts, the form in which messages name a path or a key.

A text stands between single quotes unless it holds a single quote and no double quote, in which
case it stands between double quotes.  Inside, the backslash and the enclosing quote are escaped
with a backslash, a line feed, carriage return and tab have their letters, and every other
unprintable character is written by its code point: `\xNN`, `\uNNNN` or `\UNNNNNNNN`.
-/
import StyleImport.Text.Printable

namespace StyleImport

namespace Text

/-- The mark that encloses a quoted text. -/
def quoteMark (t : Text) : Char :=
  if t.contains '\'' && !t.contains '"' then '"' else '\''

/-- A code point in the shortest of the three escaped forms that holds it. -/
def escapeCode (n : Nat) : Text :=
  if n < 0x100 then '\\' :: 'x' :: hex 2 n
  else if n < 0x10000 then '\\' :: 'u' :: hex 4 n
  else '\\' :: 'U' :: hex 8 n

/-- One character of a quoted text enclosed by `mark`. -/
def quotedChar (mark c : Char) : Text :=
  if c = mark || c = '\\' then ['\\', c]
  else if c = '\n' then ['\\', 'n']
  else if c = '\r' then ['\\', 'r']
  else if c = '\t' then ['\\', 't']
  else if isPrintable c then [c]
  else escapeCode c.toNat

/-- The text between quote marks. -/
def quoted (t : Text) : Text :=
  let mark := quoteMark t
  mark :: t.flatMap (quotedChar mark) ++ [mark]

/-- Quoted texts in brackets, as lists of paths are shown. -/
def quotedList (ts : List Text) : Text :=
  '[' :: joinWith [',', ' '] (ts.map quoted) ++ [']']

end Text

end StyleImport
