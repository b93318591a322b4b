/-
Texts inside stylesheet source.

`literal` writes a text as a string literal: a backslash goes before every backslash and every
double quote.  `preserve` takes the backslashes out of a text and `restore` puts them back, for the
way through tools that would treat them as escapes.
-/
import StyleImport.Text.Basic

namespace StyleImport

namespace Stylesheet

/-- One character of a string literal. -/
def literalChar (c : Char) : Text := if c = '\\' || c = '"' then ['\\', c] else [c]

/-- A text as a string literal. -/
def literal (t : Text) : Text := '"' :: t.flatMap literalChar ++ ['"']

/-- What stands for a backslash. -/
def placeholder : Text := "<BACKSLASH>"

/-- The text with the placeholder for every backslash. -/
def preserve (t : Text) : Text := t.flatMap fun c => if c = '\\' then placeholder else [c]

/-- The text with a backslash for every placeholder. -/
def restore (t : Text) : Text := Text.replaceAll placeholder ['\\'] t

end Stylesheet

end StyleImport
