/-
Documents checked for their shape.

A check turns a document into a value or says what is wrong with it and where.  Checks of several
parts go on after the first fault, so all complaints come out together and in order.

* `boolean`, `text`, `path`, `listOf`, `mapOf`, `optional` — one shape each;
* `Checked.both` — two checks side by side;
* `Checked.orElse` — a document that may have either of two shapes.
-/
import StyleImport.Data.Basic
import StyleImport.Error

namespace StyleImport

/-- A value, or everything that is wrong with the document that it should have come from. -/
abbrev Checked (α : Type) : Type := Except (List Complaint) α

namespace Checked

variable {α : Type} {β : Type}

/-- The complaints of a check. -/
def complaints : Checked α → List Complaint
  | .ok _ => []
  | .error cs => cs

/-- Two checks side by side. -/
def both (a : Checked α) (b : Checked β) : Checked (α × β) :=
  match a, b with
  | .ok a, .ok b => .ok (a, b)
  | a, b => .error (complaints a ++ complaints b)

/-- The check of a part that stands at `key`. -/
def inside (key : Text) (a : Checked α) : Checked α :=
  a.mapError (·.map fun c => { c with place := key :: c.place })

/-- The first check's value, or else the second's; if both fail, the complaints of both, each under
the name of its shape. -/
def orElse (firstName : Text) (first : Checked α) (secondName : Text) (second : Checked α) :
    Checked α :=
  match first, second with
  | .ok a, _ => .ok a
  | _, .ok a => .ok a
  | first, second =>
    .error (complaints (inside firstName first) ++ complaints (inside secondName second))

/-- The complaint that a document has not the shape it should have. -/
def fail (expected : Shape) : Checked α := .error [⟨[], expected⟩]

/-- The words for true. -/
def trueWords : List Text := ["1", "on", "t", "true", "y", "yes"]

/-- The words for false. -/
def falseWords : List Text := ["0", "off", "f", "false", "n", "no"]

/-- The truth value that a word stands for. -/
def readBoolean? (word : Text) : Option Bool :=
  if trueWords.contains word then some true
  else if falseWords.contains word then some false
  else none

/-- The truth value that an integer stands for. -/
def integerBoolean? (n : Int) : Option Bool :=
  if n = 0 then some false else if n = 1 then some true else none

/-- A truth value, or one of the words and numbers that stand for one. -/
def boolean : Data → Checked Bool
  | .scalar (.boolean b) => .ok b
  | .scalar (.text t) =>
    match readBoolean? (Text.toLower t) with
    | some b => .ok b
    | none => fail .readableBoolean
  | .scalar (.integer n) =>
    match integerBoolean? n with
    | some b => .ok b
    | none => fail .readableBoolean
  | .scalar (.double d) =>
    if d.isIntegral then
      match integerBoolean? d.toInt with
      | some b => .ok b
      | none => fail .readableBoolean
    else fail .boolean
  | _ => fail .boolean

/-- A text. -/
def text : Data → Checked Text
  | .scalar (.text t) => .ok t
  | _ => fail .text

/-- A path, in collapsed form. -/
def path : Data → Checked Text
  | .scalar (.text t) => .ok (Path.collapse t)
  | _ => fail .path

/-- Nothing, or what the check accepts. -/
def optional (check : Data → Checked α) : Data → Checked (Option α)
  | .scalar .null => .ok none
  | d => (check d).map some

/-- The items of a list from position `n` on, each checked at its position. -/
def itemsFrom (check : Data → Checked α) (n : Nat) : List Data → Checked (List α)
  | [] => .ok []
  | d :: ds =>
    (both (inside (Text.ofNat n) (check d)) (itemsFrom check (n + 1) ds)).map
      fun (a, as) => a :: as

/-- A list of what the check accepts. -/
def listOf (check : Data → Checked α) : Data → Checked (List α)
  | .list items => itemsFrom check 0 items
  | _ => fail .list

/-- A key that must be a text; the complaint is marked as one about the key itself. -/
def textKey : Scalar → Checked Text
  | .text t => .ok t
  | _ => inside "[key]" (fail .text)

/-- The entries of a map, each checked at its key. -/
def entriesOf (check : Data → Checked α) : List (Scalar × Data) → Checked (List (Text × α))
  | [] => .ok []
  | (k, d) :: es =>
    (both (inside k.shown (both (textKey k) (check d))) (entriesOf check es)).map
      fun (e, es) => e :: es

/-- A map from texts to what the check accepts. -/
def mapOf (check : Data → Checked α) : Data → Checked (List (Text × α))
  | .map es => entriesOf check es
  | _ => fail .map

/-- The value of a key, checked at its place, or the default if the key is missing. -/
def field (key : Text) (default : α) (check : Data → Checked α) (d : Data) : Checked α :=
  match d.get? key with
  | some v => inside key (check v)
  | none => .ok default

end Checked

end StyleImport
