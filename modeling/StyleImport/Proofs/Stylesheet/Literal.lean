/-
Texts cannot leave their literals.

Whoever reads stylesheet source takes the character behind a backslash as it stands, and the first
double quote without a backslash in front ends the literal (`Stylesheet.readLiteral`).  A literal is
read back as the text that it was written for, whatever follows it, so a path cannot say anything
else to the stylesheets than where it leads.

* `Text.replaceAll_singleton` — replacing one character, occurrence by occurrence;
* `Stylesheet.literal_eq_replaceAll` — a literal is made by two replacements, one after the other;
* `Stylesheet.readLiteral_literal` — a literal ends where it was meant to end;
* `Registration.literal_closed` — and so a registration is for one token and one path.
-/
import Mathlib.Data.List.Basic
import StyleImport.Import.Registration

namespace StyleImport

/-- A pattern of one character is found wherever the character stands. -/
theorem Text.replaceAll_singleton (c : Char) (replacement t : Text) :
    Text.replaceAll [c] replacement t = t.flatMap fun d => if d = c then replacement else [d] := by
  rw [Text.replaceAll, if_neg (List.cons_ne_nil c [])]
  induction t with
  | nil => rfl
  | cons d t ih =>
    by_cases h : d = c
    · simp [Text.replaceFrom, h, ih]
    · simp [Text.replaceFrom, h, Ne.symm h, ih]

namespace Stylesheet

/-! ### Writing a literal -/

/-- The backslashes are doubled first; the second replacement then leaves them alone, and puts one
before every double quote. -/
theorem literal_eq_replaceAll (t : Text) :
    literal t = '"' ::
      Text.replaceAll ['"'] ['\\', '"'] (Text.replaceAll ['\\'] ['\\', '\\'] t) ++ ['"'] := by
  have hchar (c : Char) : literalChar c
      = (if c = '\\' then ['\\', '\\'] else [c]).flatMap
          fun d => if d = '"' then ['\\', '"'] else [d] := by
    unfold literalChar
    by_cases hbackslash : c = '\\'
    · subst hbackslash
      rfl
    · by_cases hquote : c = '"'
      · subst hquote
        rfl
      · simp [hbackslash, hquote]
  rw [Text.replaceAll_singleton, Text.replaceAll_singleton, List.flatMap_assoc, literal]
  simp only [← hchar]

/-! ### Reading a literal -/

/-- The text of a literal after its opening quote, and what follows its closing one.  A literal that
is not closed has no text. -/
def readRest : Text → Option (Text × Text)
  | [] => none
  | ['\\'] => none
  | '\\' :: c :: cs => (readRest cs).map fun (t, after) => (c :: t, after)
  | c :: cs =>
    if c = '"' then some ([], cs) else (readRest cs).map fun (t, after) => (c :: t, after)

/-- The text of the literal in front, and what follows it. -/
def readLiteral : Text → Option (Text × Text)
  | '"' :: cs => readRest cs
  | _ => none

/-- One character is read back from how it is written, whatever stands behind it. -/
theorem readRest_literalChar (c : Char) (cs : Text) :
    readRest (literalChar c ++ cs) = (readRest cs).map fun (t, after) => (c :: t, after) := by
  unfold literalChar
  by_cases hbackslash : c = '\\'
  · subst hbackslash
    rfl
  · by_cases hquote : c = '"'
    · subst hquote
      rfl
    · simp [readRest, hbackslash, hquote]

/-- A literal is read back up to its own closing quote. -/
theorem readLiteral_literal (t after : Text) :
    readLiteral (literal t ++ after) = some (t, after) := by
  have hrest : readRest (t.flatMap literalChar ++ '"' :: after) = some (t, after) := by
    induction t with
    | nil => simp [readRest]
    | cons c t ih =>
      rw [List.flatMap_cons, List.append_assoc, readRest_literalChar, ih, Option.map_some]
  simpa [literal, readLiteral] using hrest

end Stylesheet

namespace Registration

/-- What the source of every registration starts with. -/
def lead : Text := "@import \"stylepath/fs\"; @include fs-register-path("

/-- What stands before the path in the source of a registration. -/
def opening (token : Text) : Text := lead ++ token ++ [',', ' ']

theorem source_eq (token path : Text) :
    source token path = opening token ++ (Stylesheet.literal path ++ [')', ';']) := by
  have hparts : source token path
      = lead ++ token ++ ", ".toList ++ Stylesheet.literal path ++ ");".toList := rfl
  have hcomma : ", ".toList = [',', ' '] := by decide
  have hend : ");".toList = [')', ';'] := by decide
  rw [hparts, hcomma, hend, opening, List.append_assoc _ (Stylesheet.literal path)]

/-- The token ends at the first comma behind what every registration starts with. -/
theorem opening_append_inj {token token' rest rest' : Text} (h : isToken token = true)
    (h' : isToken token' = true) (heq : opening token ++ rest = opening token' ++ rest') :
    token = token' ∧ rest = rest' := by
  have hshape (t more : Text) : opening t ++ more = lead ++ (t ++ ',' :: ' ' :: more) := by
    rw [opening, List.append_assoc, List.append_assoc]
    rfl
  rw [hshape, hshape, List.append_cancel_left_eq] at heq
  obtain ⟨htoken, hrest⟩ := isToken_append_inj (by decide) h h' heq
  exact ⟨htoken, (List.cons.inj hrest).2⟩

/-- **No path breaks out of its literal.**  A literal is made by doubling the backslashes and then
putting one before every double quote; reading it stops exactly at its end, whatever follows, and
gives the text back.  In the source of a registration the literal is followed by the two characters
that close the registration, and registrations for other tokens or other paths have other
sources. -/
theorem literal_closed :
    (∀ t : Text, Stylesheet.literal t = '"' ::
      Text.replaceAll ['"'] ['\\', '"'] (Text.replaceAll ['\\'] ['\\', '\\'] t) ++ ['"']) ∧
    (∀ t after : Text, Stylesheet.readLiteral (Stylesheet.literal t ++ after) = some (t, after)) ∧
    (∀ token path : Text, ∃ rest, source token path = opening token ++ rest ∧
      Stylesheet.readLiteral rest = some (path, [')', ';'])) ∧
    (∀ token token' path path' : Text, isToken token = true → isToken token' = true →
      source token path = source token' path' → token = token' ∧ path = path') := by
  refine ⟨Stylesheet.literal_eq_replaceAll, Stylesheet.readLiteral_literal, fun token path => ?_,
    fun token token' path path' h h' heq => ?_⟩
  · exact ⟨_, source_eq token path, Stylesheet.readLiteral_literal path _⟩
  · rw [source_eq, source_eq] at heq
    obtain ⟨rfl, hliteral⟩ := opening_append_inj h h' heq
    -- Both literals are read from the same text.
    have hread := Stylesheet.readLiteral_literal path [')', ';']
    rw [hliteral, Stylesheet.readLiteral_literal] at hread
    exact ⟨rfl, (congrArg Prod.fst (Option.some.inj hread)).symm⟩

/-- A path that ends with a backslash, and text behind it that starts with a quote. -/
theorem literal_closed_before_quote :
    let path : Text := ['\\', '"', '\\']
    isToken ['a', 'b'] = true ∧
      Stylesheet.readLiteral (Stylesheet.literal path ++ ['"', '}']) = some (path, ['"', '}']) ∧
      source ['a', 'b'] path ≠ source ['a', 'b'] ['\\', '"'] := by
  intro path
  obtain ⟨-, hread, -, hinjective⟩ := literal_closed
  refine ⟨by decide, hread path _, fun heq => ?_⟩
  exact absurd (hinjective _ _ path _ (by decide) (by decide) heq).2 (by decide)

end Registration

end StyleImport
