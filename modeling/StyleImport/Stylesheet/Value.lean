/-
The values of stylesheets.

Numbers keep the difference between integers of any size and doubles, strings know whether they are
quoted, and a list knows what separates its items.  An error is a value too: a failing query answers
with one.  A value of the host that is none of these can still be handed in by mistake; it is
`foreign` here, and no operation has a use for it.

* `Value.typeName`, `Value.display` — a value as error messages show it;
* `Value.requireString` — the text of a string argument;
* `Value.get?` — the value of a text key of a map.
-/
import StyleImport.Data.Basic
import StyleImport.Error

namespace StyleImport

/-- How much a number is. -/
inductive Amount where
  /-- An integer of any size. -/
  | integer (n : Int)
  /-- A floating-point number. -/
  | double (d : Double)
  deriving DecidableEq, Repr

/-- What separates the items of a list. -/
inductive Separator where
  /-- A comma. -/
  | comma
  /-- A space. -/
  | space
  deriving DecidableEq, Repr

/-- A value of a stylesheet. -/
inductive Value where
  /-- A string, quoted or not. -/
  | string (text : Text) (isQuoted : Bool)
  /-- A number with its unit; the empty unit is none. -/
  | number (amount : Amount) (unit : Text)
  /-- A truth value. -/
  | boolean (b : Bool)
  /-- Nothing. -/
  | null
  /-- A list. -/
  | list (items : List Value) (separator : Separator)
  /-- A map: its entries in order; the same key may stand twice. -/
  | map (entries : List (Value × Value))
  /-- An error and, if it was a promised one, its cause. -/
  | error (message : Text) (cause : Option ImportError)
  /-- A value of the host that is no value of a stylesheet. -/
  | foreign
  deriving Repr, Inhabited

namespace Value

/-- A quoted string. -/
abbrev quoted (t : Text) : Value := .string t true

/-- The name of a value's type; a foreign value has none. -/
def typeName : Value → Option Text
  | .string .. => some "string"
  | .number .. => some "number"
  | .boolean _ => some "boolean"
  | .null => some "null"
  | .list .. => some "list"
  | .map _ => some "map"
  | .error .. => some "error"
  | .foreign => none

/-- An amount as error messages show it: whole numbers without a point.  An integer beyond the range
of the doubles cannot be shown. -/
def displayAmount : Amount → Option Text
  | .integer n => (Double.ofInt? n).map fun _ => Text.ofInt n
  | .double d => some (if d.isIntegral then Text.ofInt d.toInt else Decimal.plain.write d)

/-- What stands between the items of a list that is shown. -/
def separatorText : Separator → Text
  | .comma => [',', ' ']
  | .space => [' ']

mutual

/-- A value as error messages show it; none if a number in it cannot be shown. -/
def display : Value → Option Text
  | .string t _ => some t
  | .number amount unit => (displayAmount amount).map (· ++ unit)
  | .boolean true => some ['t', 'r', 'u', 'e']
  | .boolean false => some ['f', 'a', 'l', 's', 'e']
  | .list items separator =>
    (displayItems items).map fun ts =>
      '(' :: Text.joinWith (separatorText separator) ts ++ [')']
  | .map entries =>
    (displayEntries entries).map fun ts => '(' :: Text.joinWith [',', ' '] ts ++ [')']
  | .null | .error .. | .foreign => some []

/-- The items of a list as error messages show them. -/
def displayItems : List Value → Option (List Text)
  | [] => some []
  | v :: vs => do
    let t ← display v
    let ts ← displayItems vs
    return t :: ts

/-- The entries of a map as error messages show them. -/
def displayEntries : List (Value × Value) → Option (List Text)
  | [] => some []
  | (k, v) :: es => do
    let k ← display k
    let v ← display v
    let ts ← displayEntries es
    return (k ++ ':' :: ' ' :: v) :: ts

end

/-- The text of a string argument.  Any other value is a mismatch of types, unless it has no type or
cannot be shown. -/
def requireString : Value → Except Failure Text
  | .string t _ => .ok t
  | v =>
    match v.typeName, v.display with
    | none, _ => .error .wrongKind
    | some _, none => .error .tooLarge
    | some actual, some shown =>
      .error (.promised (.wrongType ['s', 't', 'r', 'i', 'n', 'g'] actual (some shown)))

/-- The value of the first entry whose key is the string `key`. -/
def getIn? (key : Text) : List (Value × Value) → Option Value
  | [] => none
  | (.string t _, v) :: es => if t = key then some v else getIn? key es
  | _ :: es => getIn? key es

/-- The value of a string key of a map. -/
def get? (key : Text) : Value → Option Value
  | .map entries => getIn? key entries
  | _ => none

/-- The error value of a failure; its cause is kept if it was promised. -/
def ofError (e : ImportError) : Value := .error e.message (some e)

end Value

end StyleImport
