/-
Documents: what settings files, module metadata and log records are made of.

A document is a scalar, a list or a map whose keys are scalars, in insertion order.  Two keys count
as one when they are equal or are the same number: `1`, `1.0` and `true` are one key.

* `Data.get?`, `Data.isTrue` — reading a document the way its consumers do;
* `Data.written` — a document written as a literal, the form log messages show.
-/
import StyleImport.Data.Entries
import StyleImport.Number.Decimal
import StyleImport.Text.Quoted

namespace StyleImport

/-- A value without parts. -/
inductive Scalar where
  /-- Nothing. -/
  | null
  /-- True or false. -/
  | boolean (b : Bool)
  /-- An integer of any size. -/
  | integer (n : Int)
  /-- A floating-point number. -/
  | double (d : Double)
  /-- A text. -/
  | text (t : Text)
  deriving DecidableEq, Repr, Inhabited

namespace Scalar

instance : Coe Text Scalar := ⟨.text⟩

/-- The scalar that stands for all keys counting as one with `s`: numbers that are whole stand as
integers, the truth values as `0` and `1`. -/
def key : Scalar → Scalar
  | .boolean b => .integer (if b then 1 else 0)
  | .double d => if d.isIntegral then .integer d.toInt else .double d
  | s => s

/-- Whether two scalars count as one key. -/
def sameKey (a b : Scalar) : Bool := a.key = b.key

/-- A scalar as a literal. -/
def written : Scalar → Text
  | .null => "None"
  | .boolean true => "True"
  | .boolean false => "False"
  | .integer n => Text.ofInt n
  | .double d => Decimal.plain.write d
  | .text t => Text.quoted t

/-- A scalar as running text: a text stands for itself, all else as a literal. -/
def shown : Scalar → Text
  | .text t => t
  | s => s.written

/-- Whether a scalar is neither nothing, false, zero nor empty. -/
def isTrue : Scalar → Bool
  | .null => false
  | .boolean b => b
  | .integer n => n != 0
  | .double (.finite _ m _) => m != 0
  | .double _ => true
  | .text t => !t.isEmpty

end Scalar

/-- A document. -/
inductive Data where
  /-- A value without parts. -/
  | scalar (s : Scalar)
  /-- Documents in order. -/
  | list (items : List Data)
  /-- Documents by key, in the order of the keys' first appearance. -/
  | map (entries : List (Scalar × Data))
  deriving Repr, Inhabited

namespace Data

/-- The document of a text. -/
abbrev text (t : Text) : Data := .scalar (.text t)

/-- The document of a truth value. -/
abbrev boolean (b : Bool) : Data := .scalar (.boolean b)

/-- The document of an integer. -/
abbrev integer (n : Int) : Data := .scalar (.integer n)

/-- The empty document. -/
abbrev null : Data := .scalar .null

/-- The value of a text key; no map has no keys. -/
def get? (key : Text) : Data → Option Data
  | .map es => Entries.getBy? Scalar.sameKey (.text key) es
  | _ => none

/-- Whether a document is neither nothing, false, zero nor empty. -/
def isTrue : Data → Bool
  | .scalar s => s.isTrue
  | .list items => !items.isEmpty
  | .map es => !es.isEmpty

mutual

/-- A document as a literal. -/
def written : Data → Text
  | .scalar s => s.written
  | .list items => '[' :: Text.joinWith [',', ' '] (writtenItems items) ++ [']']
  | .map es => '{' :: Text.joinWith [',', ' '] (writtenEntries es) ++ ['}']

/-- The items of a list as literals. -/
def writtenItems : List Data → List Text
  | [] => []
  | d :: ds => written d :: writtenItems ds

/-- The entries of a map as literals. -/
def writtenEntries : List (Scalar × Data) → List Text
  | [] => []
  | (k, d) :: es => (k.written ++ ':' :: ' ' :: written d) :: writtenEntries es

end

/-- A document as running text. -/
def shown : Data → Text
  | .scalar s => s.shown
  | d => d.written

mutual

/-- Whether two documents are equal. -/
def decideEq : (a b : Data) → Decidable (a = b)
  | .scalar s, .scalar t => decidable_of_iff (s = t) ⟨congrArg scalar, scalar.inj⟩
  | .list as, .list bs =>
    have := decideEqItems as bs
    decidable_of_iff (as = bs) ⟨congrArg list, list.inj⟩
  | .map es, .map fs =>
    have := decideEqEntries es fs
    decidable_of_iff (es = fs) ⟨congrArg map, map.inj⟩
  | .scalar _, .list _ | .scalar _, .map _ | .list _, .scalar _ | .list _, .map _
  | .map _, .scalar _ | .map _, .list _ => .isFalse nofun

/-- Whether the items of two lists are equal. -/
def decideEqItems : (as bs : List Data) → Decidable (as = bs)
  | [], [] => .isTrue rfl
  | [], _ :: _ | _ :: _, [] => .isFalse nofun
  | a :: as, b :: bs =>
    have := decideEq a b
    have := decideEqItems as bs
    decidable_of_iff (a = b ∧ as = bs) List.cons_eq_cons.symm

/-- Whether the entries of two maps are equal. -/
def decideEqEntries : (es fs : List (Scalar × Data)) → Decidable (es = fs)
  | [], [] => .isTrue rfl
  | [], _ :: _ | _ :: _, [] => .isFalse nofun
  | (k, a) :: es, (l, b) :: fs =>
    have := decideEq a b
    have := decideEqEntries es fs
    decidable_of_iff ((k = l ∧ a = b) ∧ es = fs) (by rw [List.cons.injEq, Prod.mk.injEq])

end

instance : DecidableEq Data := decideEq

end Data

end StyleImport
