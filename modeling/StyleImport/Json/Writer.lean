/-
Documents written as JSON on one line.

Items and entries are separated by a comma and a space, keys and values by a colon and a space.
Inside a text the quote, the backslash and every control character are escaped, so the written form
holds no line break; every other character stands for itself.  A key that is no text is written as
the text of its value.
-/
import StyleImport.Data.Basic

namespace StyleImport

namespace Json

/-- One character of a JSON text. -/
def escapedChar (c : Char) : Text :=
  if c = '"' then ['\\', '"']
  else if c = '\\' then ['\\', '\\']
  else if c = '\n' then ['\\', 'n']
  else if c = '\r' then ['\\', 'r']
  else if c = '\t' then ['\\', 't']
  else if c.toNat = 8 then ['\\', 'b']
  else if c.toNat = 12 then ['\\', 'f']
  else if c.toNat < 32 then '\\' :: 'u' :: Text.hex 4 c.toNat
  else [c]

/-- A text between quotes. -/
def writeText (t : Text) : Text := '"' :: t.flatMap escapedChar ++ ['"']

/-- Doubles in JSON: as in messages, with long words for what is not finite. -/
def doubleStyle : Decimal.Style := { infinity := "Infinity", notANumber := "NaN" }

/-- A value without parts. -/
def writeScalar : Scalar → Text
  | .null => "null"
  | .boolean true => "true"
  | .boolean false => "false"
  | .integer n => Text.ofInt n
  | .double d => doubleStyle.write d
  | .text t => writeText t

/-- A key. -/
def writeKey : Scalar → Text
  | .text t => writeText t
  | s => writeText (writeScalar s)

mutual

/-- A document on one line. -/
def write : Data → Text
  | .scalar s => writeScalar s
  | .list items => '[' :: Text.joinWith [',', ' '] (writeItems items) ++ [']']
  | .map es => '{' :: Text.joinWith [',', ' '] (writeEntries es) ++ ['}']

/-- The items of a list. -/
def writeItems : List Data → List Text
  | [] => []
  | d :: ds => write d :: writeItems ds

/-- The entries of a map. -/
def writeEntries : List (Scalar × Data) → List Text
  | [] => []
  | (k, d) :: es => (writeKey k ++ ':' :: ' ' :: write d) :: writeEntries es

end

end Json

end StyleImport
