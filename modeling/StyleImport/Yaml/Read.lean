/-
Documents read from YAML texts.

Scalars without a tag are read for what they look like if they are plain, and are texts otherwise.
The keys of a map are scalars; of two entries with one key the later value counts, at the place of
the first.  A map under the key `<<` stands in front of the entries of its own.

* `read` — the document of a text; an empty text is nothing.
-/
import StyleImport.Yaml.Element
import StyleImport.Yaml.Scalars

namespace StyleImport

namespace Yaml

/-- Why a text is no document. -/
inductive Defect where
  /-- It has a fault at some place. -/
  | fault (f : Fault)
  /-- It holds a character that no document may hold, that many characters from the start. -/
  | unprintable (c : Char) (offset : Nat)
  deriving DecidableEq, Repr

/-- A defect of the text called `name` in words. -/
def Defect.message (name : Text) : Defect → Text
  | .fault f => f.message name
  | .unprintable c offset =>
    "unacceptable character #x" ++ Text.hex 4 c.toNat
      ++ ": special characters are not allowed\n  in \""
      ++ name ++ "\", position " ++ Text.ofNat offset

/-- Whether a document may hold a character. -/
def isAcceptable (c : Char) : Bool :=
  let n := c.toNat
  n = 9 || n = 10 || n = 13 || (0x20 ≤ n && n ≤ 0x7E) || n = 0x85 || (0xA0 ≤ n && n ≤ 0xFFFD)
    || 0x10000 ≤ n

/-- The name of a tag: two exclamation marks stand for the standard tags, pointed brackets enclose a
name that is written out. -/
def tagName : Text → Text
  | '!' :: '!' :: name => "tag:yaml.org,2002:" ++ name
  | '!' :: '<' :: name => name.dropLast
  | tag => tag

/-- The fault of a tag that no value is known for. -/
def unknownTag (mark : Mark) (tag : Text) : Fault :=
  { problem := "could not determine a constructor for the tag " ++ Text.quoted (tagName tag), mark }

/-- The fault of a plain scalar that looks like a mark. -/
def markAsValue (mark : Mark) (t : Text) : Fault :=
  unknownTag mark (if Look.of t = .merge then "!!merge" else "!!value")

/-- The value of a scalar: it goes by its tag, or else by its looks. -/
def scalarValue (mark : Mark) (tag : Option Text) (t : Text) (isPlain : Bool) :
    Except Fault Scalar :=
  match tag with
  | none =>
    if isPlain then
      match scalarOf t with
      | some s => .ok s
      | none => .error (markAsValue mark t)
    else .ok (.text t)
  | some ['!'] => .ok (.text t)
  | some tag =>
    if tag = "!!str" then .ok (.text t)
    else if tag = "!!null" then .ok .null
    else if tag = "!!int" && looksInteger t then .ok (.integer (integerValue t))
    else if tag = "!!float" && (looksDouble t || looksInteger t) then .ok (.double (doubleValue t))
    else match Look.of t with
      | .boolean b => if tag = "!!bool" then .ok (.boolean b) else .error (unknownTag mark tag)
      | _ => .error (unknownTag mark tag)

/-- Whether a list or map may have a tag. -/
def checkTag (mark : Mark) (tag : Option Text) (standard : Text) : Except Fault Unit :=
  match tag with
  | none => .ok ()
  | some tag =>
    if tag = ['!'] || tag = '!' :: '!' :: standard then .ok () else .error (unknownTag mark tag)

/-- The fault of the key of a map that starts at `start`. -/
def unusableKey (start mark : Mark) : Fault :=
  { context := some ("while constructing a mapping", start)
    problem := "found unhashable key", mark }

/-- The fault of a value that is to be merged into a map that starts at `start`. -/
def unmergeable (start mark : Mark) (wanted found : Text) : Fault :=
  { context := some ("while constructing a mapping", start)
    problem := "expected a mapping" ++ wanted ++ " for merging, but found " ++ found
    mark }

/-- The key of a map, or nothing for the mark of a map to be merged. -/
def keyOf? (start : Mark) : Element → Except Fault (Option Scalar)
  | .scalar mark none t true =>
    match Look.of t with
    | .merge => .ok none
    | .default => .ok (some (.text t))
    | _ => (scalarValue mark none t true).map some
  | .scalar mark tag t isPlain => (scalarValue mark tag t isPlain).map some
  | .list mark _ _ | .map mark _ _ => .error (unusableKey start mark)

/-- The word for the kind of an element. -/
def Element.kindName : Element → Text
  | .scalar .. => "scalar"
  | .list .. => "sequence"
  | .map .. => "mapping"

/-- The entries that the items of a list bring into the map that they are merged into: those of the
first item count most. -/
def mergedItems (start : Mark) : List (Element × Data) → Except Fault (List (Scalar × Data))
  | [] => .ok []
  | (_, .map es) :: rest => (mergedItems start rest).map fun more => more ++ es
  | (e, _) :: _ => .error (unmergeable start e.mark [] e.kindName)

/-- The entries that a value brings into the map that it is merged into. -/
def mergedEntries (start : Mark) (e : Element) (d : Data) : Except Fault (List (Scalar × Data)) :=
  match e, d with
  | _, .map es => .ok es
  | .list _ _ items, .list ds => mergedItems start (items.zip ds)
  | e, _ => .error (unmergeable start e.mark " or list of mappings" e.kindName)

mutual

/-- The document of an element. -/
def Element.toData : Element → Except Fault Data
  | .scalar mark tag t isPlain => (scalarValue mark tag t isPlain).map .scalar
  | .list mark tag items => do
    checkTag mark tag "seq"
    return .list (← itemsToData items)
  | .map mark tag entries => do
    checkTag mark tag "map"
    let (merged, own) ← entriesToData mark entries
    return .map (Entries.ofListBy Scalar.sameKey (merged ++ own))

/-- The documents of the items of a list. -/
def itemsToData : List Element → Except Fault (List Data)
  | [] => .ok []
  | e :: es => do return (← Element.toData e) :: (← itemsToData es)

/-- The entries of a map that starts at `start`: those merged into it and its own. -/
def entriesToData (start : Mark) :
    List (Element × Element) → Except Fault (List (Scalar × Data) × List (Scalar × Data))
  | [] => .ok ([], [])
  | (k, v) :: es => do
    let key ← keyOf? start k
    let d ← Element.toData v
    let (merged, own) ← entriesToData start es
    match key with
    | some key => return (merged, (key, d) :: own)
    | none => return ((← mergedEntries start v d) ++ merged, own)

end

/-- The document of a text. -/
def read (t : Text) : Except Defect Data :=
  match t.dropWhile isAcceptable with
  | c :: rest => .error (.unprintable c (t.length - rest.length - 1))
  | [] =>
    match Element.parse t with
    | .error f => .error (.fault f)
    | .ok none => .ok .null
    | .ok (some e) => (Element.toData e).mapError .fault

end Yaml

end StyleImport
