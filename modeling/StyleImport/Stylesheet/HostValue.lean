/-
Values of the host, and the way between them and the values of stylesheets.

A host passes scalars, lists and dictionaries.  On the way in, dictionary keys become quoted
strings, so two keys that are shown alike become two entries of a map; on the way out, entries with
one key become one entry, the last value standing at the place of the first.

* `Value.ofHost` — a host value as a stylesheet value;
* `Value.toHost` — a stylesheet value as a host value.
-/
import StyleImport.Stylesheet.Value

namespace StyleImport

/-- A key of a host's dictionary. -/
inductive HostKey where
  /-- A scalar. -/
  | scalar (s : Scalar)
  /-- Keys in a fixed order. -/
  | tuple (items : List HostKey)
  /-- Bytes. -/
  | bytes (bs : List UInt8)
  deriving Repr, Inhabited

namespace HostKey

/-- Whether two scalars are one key: as in documents, but no number is not even itself. -/
def sameScalar (a b : Scalar) : Bool := a.sameKey b && a ≠ .double .nan

mutual

/-- Whether two keys are one. -/
def same : HostKey → HostKey → Bool
  | .scalar a, .scalar b => sameScalar a b
  | .tuple as, .tuple bs => sameItems as bs
  | .bytes as, .bytes bs => as = bs
  | _, _ => false

/-- Whether two lists of keys are one item by item. -/
def sameItems : List HostKey → List HostKey → Bool
  | [], [] => true
  | a :: as, b :: bs => same a b && sameItems as bs
  | _, _ => false

end

/-- One byte of a literal enclosed by `mark`. -/
def writtenByte (mark : Char) (b : UInt8) : Text :=
  let c := Char.ofNat b.toNat
  if b.toNat < 128 then Text.quotedChar mark c else Text.escapeCode b.toNat

/-- Bytes as a literal. -/
def writtenBytes (bs : List UInt8) : Text :=
  let mark := Text.quoteMark (bs.map fun b => Char.ofNat b.toNat)
  'b' :: mark :: bs.flatMap (writtenByte mark) ++ [mark]

mutual

/-- A key as a literal. -/
def written : HostKey → Text
  | .scalar s => s.written
  | .tuple [k] => '(' :: written k ++ [',', ')']
  | .tuple items => '(' :: Text.joinWith [',', ' '] (writtenItems items) ++ [')']
  | .bytes bs => writtenBytes bs

/-- Keys as literals. -/
def writtenItems : List HostKey → List Text
  | [] => []
  | k :: ks => written k :: writtenItems ks

end

/-- A key as running text. -/
def shown : HostKey → Text
  | .scalar s => s.shown
  | k => k.written

end HostKey

/-- A value of the host. -/
inductive HostValue where
  /-- A scalar. -/
  | scalar (s : Scalar)
  /-- Values in order. -/
  | list (items : List HostValue)
  /-- Values by key. -/
  | dictionary (entries : List (HostKey × HostValue))
  /-- A value of a stylesheet. -/
  | value (v : Value)
  /-- Something that no stylesheet can hold, by the name of its type. -/
  | other (typeName : Text)
  deriving Repr, Inhabited

namespace Value

/-- A scalar as a stylesheet value. -/
def ofScalar : Scalar → Value
  | .null => .null
  | .boolean b => .boolean b
  | .integer n => .number (.integer n) []
  | .double d => .number (.double d) []
  | .text t => quoted t

/-- The name of the type of error values, as the host knows it. -/
def errorTypeName : Text := ['S', 'a', 's', 's', 'E', 'r', 'r', 'o', 'r']

mutual

/-- A host value as a stylesheet value. -/
def ofHost : HostValue → Except Failure Value
  | .scalar s => .ok (ofScalar s)
  | .list items => (ofHostItems items).map (.list · .comma)
  | .dictionary entries => (ofHostEntries entries).map .map
  | .value (.error ..) => .error (.inconvertible errorTypeName)
  | .value v => .ok v
  | .other typeName => .error (.inconvertible typeName)

/-- The items of a list as stylesheet values. -/
def ofHostItems : List HostValue → Except Failure (List Value)
  | [] => .ok []
  | h :: hs => do
    let v ← ofHost h
    let vs ← ofHostItems hs
    return v :: vs

/-- The entries of a dictionary as entries of a map. -/
def ofHostEntries : List (HostKey × HostValue) → Except Failure (List (Value × Value))
  | [] => .ok []
  | (k, h) :: es => do
    let v ← ofHost h
    let rest ← ofHostEntries es
    return (quoted k.shown, v) :: rest

end

/-- An amount as a host scalar. -/
def amountScalar : Amount → Scalar
  | .integer n => .integer n
  | .double d => .double d

/-- A host value as the key of a dictionary; lists and dictionaries cannot be keys. -/
def hostKey : HostValue → Except Failure HostKey
  | .scalar s => .ok (.scalar s)
  | _ => .error .wrongKind

mutual

/-- A stylesheet value as a host value; units, quotes and separators are lost. -/
def toHost : Value → Except Failure HostValue
  | .null => .ok (.scalar .null)
  | .string t _ => .ok (.scalar (.text t))
  | .boolean b => .ok (.scalar (.boolean b))
  | .number amount _ => .ok (.scalar (amountScalar amount))
  | .list items _ => (toHostItems items).map .list
  | .map entries => (toHostEntries [] entries).map .dictionary
  | .error .. | .foreign => .error .wrongKind

/-- The items of a list as host values. -/
def toHostItems : List Value → Except Failure (List HostValue)
  | [] => .ok []
  | v :: vs => do
    let h ← toHost v
    let hs ← toHostItems vs
    return h :: hs

/-- The entries of a map written into a dictionary that holds `done` already. -/
def toHostEntries (done : List (HostKey × HostValue)) :
    List (Value × Value) → Except Failure (List (HostKey × HostValue))
  | [] => .ok done
  | (k, v) :: es => do
    let key ← hostKey (← toHost k)
    let h ← toHost v
    toHostEntries (Entries.putBy HostKey.same key h done) es

end

end Value

end StyleImport
