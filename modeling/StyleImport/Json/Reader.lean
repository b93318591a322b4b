/-
Reading a JSON text.

The reader walks the tokens once with a stack of the lists and maps that are still open; what it
expects next decides what a token means and, if the token does not fit, what is wrong.  The first
token at fault is the one reported, with its line and column.
-/
import StyleImport.Json.Token

namespace StyleImport

namespace Json

/-- A list or map that is still open. -/
inductive Frame where
  /-- A list and its items so far, the last one first. -/
  | list (items : List Data)
  /-- A map, its entries so far and the key whose value comes next. -/
  | map (entries : List (Scalar × Data)) (key : Text)

/-- What must come next. -/
inductive Expected where
  /-- A value. -/
  | value
  /-- A value or the end of an empty list. -/
  | firstItem
  /-- A key or the end of an empty map. -/
  | firstKey
  /-- A key. -/
  | key
  /-- The colon after a key. -/
  | colon
  /-- A comma or the end of the innermost list or map. -/
  | separator
  /-- Nothing: the document is complete. -/
  | nothing (document : Data)

/-- The problem with a token that is not what is expected. -/
def Expected.problem : Expected → Problem
  | .value | .firstItem => .expectingValue
  | .firstKey | .key => .expectingKey
  | .colon => .expectingColon
  | .separator => .expectingComma
  | .nothing _ => .extraData

/-- The state of the reader: the open lists and maps, innermost first, and what must come next. -/
structure State where
  /-- The open lists and maps, innermost first. -/
  stack : List Frame
  /-- What must come next. -/
  expected : Expected

/-- The state after a complete value. -/
def place (d : Data) : List Frame → State
  | [] => ⟨[], .nothing d⟩
  | .list items :: stack => ⟨.list (d :: items) :: stack, .separator⟩
  | .map es key :: stack =>
    ⟨.map (Entries.putBy Scalar.sameKey (.text key) d es) key :: stack, .separator⟩

/-- The state after an opening bracket where a value may stand; none if the mark opens nothing. -/
def openWith (c : Char) (stack : List Frame) : Option State :=
  if c = '[' then some ⟨.list [] :: stack, .firstItem⟩
  else if c = '{' then some ⟨.map [] [] :: stack, .firstKey⟩
  else none

/-- The state after a comma or closing bracket inside the innermost list or map. -/
def separate (c : Char) : List Frame → Option State
  | .list items :: stack =>
    if c = ',' then some ⟨.list items :: stack, .value⟩
    else if c = ']' then some (place (.list items.reverse) stack)
    else none
  | .map es key :: stack =>
    if c = ',' then some ⟨.map es key :: stack, .key⟩
    else if c = '}' then some (place (.map es) stack)
    else none
  | [] => none

/-- The state after a token that fits. -/
def advance (s : State) (token : Token) : Option State :=
  match s.expected, token with
  | .value, .text t | .firstItem, .text t => some (place (.text t) s.stack)
  | .value, .scalar v | .firstItem, .scalar v => some (place (.scalar v) s.stack)
  | .value, .mark c => openWith c s.stack
  | .firstItem, .mark c => if c = ']' then separate c s.stack else openWith c s.stack
  | .firstKey, .mark c => if c = '}' then separate c s.stack else none
  | .firstKey, .text t | .key, .text t =>
    match s.stack with
    | .map es _ :: stack => some ⟨.map es t :: stack, .colon⟩
    | _ => none
  | .colon, .mark c => if c = ':' then some ⟨s.stack, .value⟩ else none
  | .separator, .mark c => separate c s.stack
  | _, _ => none

/-- The fault of a token that does not fit: a broken text is at fault itself where a text may stand,
and an integer of too many digits where a value may. -/
def faultOf (s : State) (token : Token) (offset : Nat) : Fault :=
  match s.expected, token with
  | .value, .broken fault | .firstItem, .broken fault
  | .firstKey, .broken fault | .key, .broken fault => fault
  | .value, .huge digits | .firstItem, .huge digits => ⟨.tooManyDigits digits, offset⟩
  | expected, _ => ⟨expected.problem, offset⟩

/-- Reading the rest of the tokens of a text of `length` characters. -/
def readTokens (length : Nat) : State → List (Token × Nat) → Except Fault Data
  | s, [] =>
    match s.expected with
    | .nothing d => .ok d
    | expected => .error ⟨expected.problem, length⟩
  | s, (token, offset) :: rest =>
    match advance s token with
    | some s => readTokens length s rest
    | none => .error (faultOf s token offset)

/-- The document that a text spells, or its first fault. -/
def read (cs : Text) : Except Fault Data :=
  match cs with
  | '\uFEFF' :: _ => .error ⟨.byteOrderMark, 0⟩
  | cs => readTokens cs.length ⟨[], .value⟩ (tokens 0 cs)

/-- A fault with its line, column and offset in the text. -/
def Fault.message (cs : Text) (f : Fault) : Text :=
  let before := cs.take f.offset
  let line := before.count '\n' + 1
  let column := (before.reverse.takeWhile (· ≠ '\n')).length + 1
  f.problem.message ++ ": line " ++ Text.ofNat line ++ " column " ++ Text.ofNat column
    ++ " (char " ++ Text.ofNat f.offset ++ ")"

end Json

end StyleImport
