/-
The elements of a YAML text: scalars, lists and maps with their tags, before scalars are read for
what they look like.

`Element.parse` reads the tokens of one document.  A list may be written with hyphens, at the same
column as the key that it belongs to, or in brackets; a map in lines or in braces; an element that
is left out is an empty plain scalar.
-/
import StyleImport.Data.Entries
import StyleImport.Yaml.Token

namespace StyleImport

namespace Yaml

/-- A part of a document. -/
inductive Element where
  /-- A scalar. -/
  | scalar (mark : Mark) (tag : Option Text) (text : Text) (isPlain : Bool)
  /-- A list. -/
  | list (mark : Mark) (tag : Option Text) (items : List Element)
  /-- A map. -/
  | map (mark : Mark) (tag : Option Text) (entries : List (Element × Element))
  deriving Repr

instance : Inhabited Element := ⟨.scalar {} none [] true⟩

/-- The place of an element. -/
def Element.mark : Element → Mark
  | .scalar mark .. | .list mark .. | .map mark .. => mark

/-- What is left to read and what was given a name. -/
structure Reading where
  /-- The tokens that are left. -/
  tokens : List Token
  /-- The elements that were given a name. -/
  anchors : List (Text × Element) := []

/-- Reading with a possible fault. -/
abbrev Parse : Type → Type := StateT Reading (Except Fault)

namespace Parse

/-- The next token. -/
def peek : Parse Token := do
  match (← get).tokens with
  | [] => throw { problem := "no tokens", mark := {} }
  | t :: _ =>
    match t.kind with
    | .broken f => throw f
    | _ => return t

/-- The kind of the next token. -/
def peekKind : Parse TokenKind := do return (← peek).kind

/-- Moving on after the next token. -/
def skip : Parse Unit := modify fun r => { r with tokens := r.tokens.tail }

/-- Moving on after the next token, if it is of a kind; whether it is. -/
def skipIf (kind : TokenKind) : Parse Bool := do
  if (← peekKind) = kind then
    skip
    return true
  else return false

/-- The element that is left out before the next token. -/
def missing : Parse Element := do return .scalar (← peek).mark none [] true

/-- The fault that the next token is not what is expected inside something that starts
at `start`. -/
def unexpected {α : Type} (inside : Text) (start : Mark) (expected : Text) : Parse α := do
  let t ← peek
  throw { context := some (inside, start), problem := expected ++ Text.quoted t.kind.name
          mark := t.mark }

/-- The name and the tag in front of an element, in either order. -/
def properties : Parse (Option (Text × Mark) × Option Text) := do
  let first ← peek
  match first.kind with
  | .anchor name =>
    skip
    match ← peekKind with
    | .tag t => skip; return (some (name, first.mark), some t)
    | _ => return (some (name, first.mark), none)
  | .tag t =>
    skip
    let second ← peek
    match second.kind with
    | .anchor name => skip; return (some (name, second.mark), some t)
    | _ => return (none, some t)
  | _ => return (none, none)

/-- The element with a name. -/
def named (name : Text) (mark : Mark) : Parse Element := do
  match Entries.get? name (← get).anchors with
  | some e => return e
  | none => throw { problem := "found undefined alias " ++ Text.quoted name, mark }

/-- An element with the name that stands in front of it; no name stands for two elements. -/
def remember (name : Option (Text × Mark)) (e : Element) : Parse Element := do
  match name with
  | none => return e
  | some (name, _) =>
    if let some first := Entries.get? name (← get).anchors then
      throw { context := some ("found duplicate anchor " ++ Text.quoted name
                ++ "; first occurrence", first.mark)
              problem := "second occurrence", mark := e.mark }
    modify fun r => { r with anchors := Entries.put name e r.anchors }
    return e

/-- The empty scalar that stands behind a name or tag alone; where neither stands, a fault. -/
def emptyOrFault (inBlock : Bool) (start : Mark) (name : Option (Text × Mark)) (tag : Option Text) :
    Parse Element :=
  let inside : Text := if inBlock then "while parsing a block node" else "while parsing a flow node"
  if name.isSome || tag.isSome then remember name (.scalar start tag [] true)
  else unexpected inside start "expected the node content, but found "

mutual

/-- An element.  `inBlock` says whether lists and maps in lines may stand there, `flush` whether a
list with hyphens may stand at the column of its key. -/
def element (tries : Nat) (inBlock flush : Bool) : Parse Element := do
  match tries with
  | 0 => throw { problem := "no tokens", mark := {} }
  | tries + 1 =>
    let start := (← peek).mark
    match ← peekKind with
    | .alias name => do
      skip
      named name start
    | _ => do
      let (name, tag) ← properties
      content tries inBlock flush start name tag

/-- What follows the name and the tag of an element that starts at `start`. -/
def content (tries : Nat) (inBlock flush : Bool) (start : Mark) (name : Option (Text × Mark))
    (tag : Option Text) : Parse Element := do
  match tries with
  | 0 => throw { problem := "no tokens", mark := {} }
  | tries + 1 =>
    let t ← peek
    match t.kind, flush, inBlock with
    | .item, true, _ => remember name (.list start tag (← flushItems tries))
    | .scalar text isPlain, _, _ => do
      skip
      remember name (.scalar start tag text isPlain)
    | .flowList, _, _ => do
      skip
      remember name (.list start tag (← flowItems tries t.mark true))
    | .flowMap, _, _ => do
      skip
      remember name (.map start tag (← flowEntries tries t.mark true))
    | .blockList, _, true => do
      skip
      remember name (.list start tag (← blockItems tries t.mark))
    | .blockMap, _, true => do
      skip
      remember name (.map start tag (← blockEntries tries t.mark))
    | _, _, _ => emptyOrFault inBlock start name tag

/-- The items of a list with hyphens up to its end. -/
def blockItems (tries : Nat) (start : Mark) : Parse (List Element) := do
  match tries with
  | 0 => throw { problem := "no tokens", mark := {} }
  | tries + 1 =>
    if ← skipIf .item then
      let kind ← peekKind
      let e ← if kind = .item || kind = .blockEnd then missing else element tries true false
      return e :: (← blockItems tries start)
    else if ← skipIf .blockEnd then return []
    else unexpected "while parsing a block collection" start "expected <block end>, but found "

/-- The items of a list with hyphens at the column of its key. -/
def flushItems (tries : Nat) : Parse (List Element) := do
  match tries with
  | 0 => throw { problem := "no tokens", mark := {} }
  | tries + 1 =>
    if ← skipIf .item then
      let kind ← peekKind
      let isMissing := kind = .item || kind = .key || kind = .value || kind = .blockEnd
      let e ← if isMissing then missing else element tries true false
      return e :: (← flushItems tries)
    else return []

/-- A key or value of a map in lines. -/
def blockPart (tries : Nat) : Parse Element := do
  match tries with
  | 0 => throw { problem := "no tokens", mark := {} }
  | tries + 1 =>
    let kind ← peekKind
    if kind = .key || kind = .value || kind = .blockEnd then missing else element tries true true

/-- The entries of a map in lines up to its end. -/
def blockEntries (tries : Nat) (start : Mark) : Parse (List (Element × Element)) := do
  match tries with
  | 0 => throw { problem := "no tokens", mark := {} }
  | tries + 1 =>
    if ← skipIf .key then
      let k ← blockPart tries
      let v ← if ← skipIf .value then blockPart tries else missing
      return (k, v) :: (← blockEntries tries start)
    else if ← skipIf .blockEnd then return []
    else unexpected "while parsing a block mapping" start "expected <block end>, but found "

/-- A key or value in brackets; `close` is the kind of the closing bracket. -/
def flowPart (tries : Nat) (close : TokenKind) (isKey : Bool) : Parse Element := do
  match tries with
  | 0 => throw { problem := "no tokens", mark := {} }
  | tries + 1 =>
    let kind ← peekKind
    if (isKey && kind = .value) || kind = .comma || kind = close then missing
    else element tries false false

/-- The items of a list in brackets up to its end; an item may be a map of one entry. -/
def flowItems (tries : Nat) (start : Mark) (isFirst : Bool) : Parse (List Element) := do
  match tries with
  | 0 => throw { problem := "no tokens", mark := {} }
  | tries + 1 =>
    if ← skipIf .flowListEnd then return []
    if !isFirst then
      if !(← skipIf .comma) then
        return ← unexpected "while parsing a flow sequence" start "expected ',' or ']', but got "
    let t ← peek
    if t.kind = .key then
      skip
      let k ← flowPart tries .flowListEnd true
      let v ← if ← skipIf .value then flowPart tries .flowListEnd false else missing
      return .map t.mark none [(k, v)] :: (← flowItems tries start false)
    else if t.kind = .flowListEnd then
      skip
      return []
    else
      let e ← element tries false false
      return e :: (← flowItems tries start false)

/-- The entries of a map in braces up to its end. -/
def flowEntries (tries : Nat) (start : Mark) (isFirst : Bool) :
    Parse (List (Element × Element)) := do
  match tries with
  | 0 => throw { problem := "no tokens", mark := {} }
  | tries + 1 =>
    if ← skipIf .flowMapEnd then return []
    if !isFirst then
      if !(← skipIf .comma) then
        return ← unexpected "while parsing a flow mapping" start "expected ',' or '\x7d', but got "
    let t ← peek
    if t.kind = .key then
      skip
      let k ← flowPart tries .flowMapEnd true
      let v ← if ← skipIf .value then flowPart tries .flowMapEnd false else missing
      return (k, v) :: (← flowEntries tries start false)
    else if t.kind = .flowMapEnd then
      skip
      return []
    else
      let k ← element tries false false
      return (k, ← missing) :: (← flowEntries tries start false)

end

/-- The number of tokens that are left. -/
def left : Parse Nat := do return (← get).tokens.length

/-- Moving on after tokens of a kind. -/
def skipAll (kind : TokenKind) : (tries : Nat) → Parse Unit
  | 0 => pure ()
  | tries + 1 => do if ← skipIf kind then skipAll kind tries

/-- The three hyphens of a document, after any directives. -/
def documentStart : Parse Unit := do
  skipAll .directive (← left)
  if !(← skipIf .documentStart) then
    let t ← peek
    throw { problem := "expected '<document start>', but found " ++ Text.quoted t.kind.name
            mark := t.mark }

/-- Whether the next token ends a document. -/
def atDocumentEnd : Parse Bool := do
  let kind ← peekKind
  return kind = .directive || kind = .documentStart || kind = .documentEnd || kind = .streamEnd

/-- The only document of a text; a text without one has none. -/
def document : Parse (Option Element) := do
  let kind ← peekKind
  if kind = .streamEnd then return none
  let tries := 4 * (← left) + 4
  let isExplicit := kind = .directive || kind = .documentStart
  if isExplicit then documentStart
  let start := (← peek).mark
  let e ← if isExplicit && (← atDocumentEnd) then missing else element tries true false
  skipAll .documentEnd (← left)
  if (← peekKind) = .streamEnd then return some e
  let another := (← peek).mark
  documentStart
  throw { context := some ("expected a single document in the stream", start)
          problem := "but found another document", mark := another }

end Parse

/-- The only document of a text, if it has one. -/
def Element.parse (t : Text) : Except Fault (Option Element) :=
  (Parse.document.run { tokens := Token.scan t }).map (·.1)

end Yaml

end StyleImport
