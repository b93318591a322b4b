/-
Imports that register a location.

The import `fs(images)` loads no file: it binds the token `images` to a directory for the rest of
the compilation, and its contents are the stylesheet source that tells the stylesheets so.

* `Registration.token?` — the token of such an identifier;
* `Registration.source`, `Registration.file` — the contents and the name of the import.
-/
import StyleImport.Stylesheet.Literal

namespace StyleImport

namespace Registration

/-- The characters that a token starts with. -/
def startsToken (c : Char) : Bool := c.isAlpha || c = '-' || c = '_'

/-- The characters that a token goes on with. -/
def continuesToken (c : Char) : Bool := startsToken c || c.isDigit

/-- Whether a text is a token: at least two characters of the right kinds. -/
def isToken : Text → Bool
  | c :: cs => startsToken c && !cs.isEmpty && cs.all continuesToken
  | [] => false

theorem continuesToken_of_isToken {token : Text} (h : isToken token = true) :
    ∀ c ∈ token, continuesToken c = true := by
  cases token with
  | nil => simp
  | cons c cs =>
    simp only [isToken, Bool.and_eq_true, List.all_eq_true] at h
    intro d hd
    rcases List.mem_cons.mp hd with rfl | hd
    · rw [continuesToken, h.1.1, Bool.true_or]
    · exact h.2 d hd

/-- A character that no token holds ends the token in front of it. -/
theorem isToken_append_inj {c : Char} (hc : continuesToken c = false)
    {token token' rest rest' : Text} (h : isToken token = true) (h' : isToken token' = true)
    (heq : token ++ c :: rest = token' ++ c :: rest') : token = token' ∧ rest = rest' := by
  have hcut {t : Text} (ht : isToken t = true) (more : Text) :
      (t ++ c :: more).takeWhile (· ≠ c) = t := by
    have hall : ∀ d ∈ t, decide (d ≠ c) = true := by
      intro d hd
      refine decide_eq_true fun hdc => ?_
      rw [← hdc, continuesToken_of_isToken ht d hd] at hc
      cases hc
    rw [List.takeWhile_append_of_pos hall]
    simp
  obtain rfl : token = token' := by
    rw [← hcut h rest, heq, hcut h' rest']
  exact ⟨rfl, by simpa using heq⟩

/-- The text without one line end at its end. -/
def dropLineEnd (t : Text) : Text := if t.getLast? = some '\n' then t.dropLast else t

/-- The token that an identifier registers: it is `fs(`, the token and `)`, and a line end may
follow. -/
def token? (identifier : Text) : Option Text :=
  match dropLineEnd identifier with
  | 'f' :: 's' :: '(' :: cs =>
    if cs.getLast? = some ')' && isToken cs.dropLast then some cs.dropLast else none
  | _ => none

/-- The token that stands for the project's root. -/
def rootToken : Text := ['r', 'o', 'o', 't']

/-- Stylesheet source that registers `token` for `path` when it is compiled. -/
def source (token path : Text) : Text :=
  "@import \"stylepath/fs\"; @include fs-register-path(" ++ token ++ ", "
    ++ Stylesheet.literal path ++ ");"

/-- The start of the names of imports that are registrations. -/
def scheme : Text := ['f', 's', ':']

/-- The name of the import that registers `token` for `path`. -/
def file (token path : Text) : Text := scheme ++ token ++ ':' :: path

end Registration

end StyleImport
