/-
The tokens of a YAML text.

Blocks are told by indentation: a token that starts further right than the block around it opens a
new one, and one that starts further left closes those that it leaves.  Whether a scalar is a key is
known only at the colon behind it; until then a place before it is kept free, which the colon fills
and which stays empty otherwise.

* `Token.scan` — the tokens of a text, up to the first place where none can be read.
-/
import StyleImport.Yaml.Scalar

namespace StyleImport

namespace Yaml

/-- What a token is. -/
inductive TokenKind where
  /-- Three hyphens: a document starts. -/
  | documentStart
  /-- Three dots: a document ends. -/
  | documentEnd
  /-- A directive for the next document. -/
  | directive
  /-- A list of items behind hyphens starts. -/
  | blockList
  /-- A map in lines starts. -/
  | blockMap
  /-- A list or map in lines ends. -/
  | blockEnd
  /-- An opening bracket. -/
  | flowList
  /-- A closing bracket. -/
  | flowListEnd
  /-- An opening brace. -/
  | flowMap
  /-- A closing brace. -/
  | flowMapEnd
  /-- A hyphen before an item. -/
  | item
  /-- A comma. -/
  | comma
  /-- A key comes next. -/
  | key
  /-- A value comes next. -/
  | value
  /-- A name for the node that comes next. -/
  | anchor (name : Text)
  /-- The node of that name again. -/
  | alias (name : Text)
  /-- A tag of the node that comes next. -/
  | tag (name : Text)
  /-- A scalar; a plain one is read for what it looks like. -/
  | scalar (text : Text) (isPlain : Bool)
  /-- The end of the text. -/
  | streamEnd
  /-- No token can be read here. -/
  | broken (fault : Fault)
  deriving DecidableEq, Repr

/-- The name of a kind of token in faults. -/
def TokenKind.name : TokenKind → Text
  | .documentStart => "<document start>"
  | .documentEnd => "<document end>"
  | .directive => "<directive>"
  | .blockList => "<block sequence start>"
  | .blockMap => "<block mapping start>"
  | .blockEnd => "<block end>"
  | .flowList => ['[']
  | .flowListEnd => [']']
  | .flowMap => ['{']
  | .flowMapEnd => ['}']
  | .item => ['-']
  | .comma => [',']
  | .key => ['?']
  | .value => [':']
  | .anchor _ => "<anchor>"
  | .alias _ => "<alias>"
  | .tag _ => "<tag>"
  | .scalar .. => "<scalar>"
  | .streamEnd => "<stream end>"
  | .broken _ => "<broken>"

/-- A token and where it starts. -/
structure Token where
  /-- What it is. -/
  kind : TokenKind
  /-- Where it starts. -/
  mark : Mark
  deriving DecidableEq, Repr

/-- A scalar, list or alias that may turn out to be a key. -/
structure PossibleKey where
  /-- The number of the place kept free before it. -/
  place : Nat
  /-- Whether it must be a key, since nothing else can stand there. -/
  required : Bool
  /-- Where it starts. -/
  offset : Nat
  /-- Where it starts. -/
  mark : Mark

/-- A piece of the output of the scanner: a token, or a place kept free for the mark of a key. -/
inductive Piece where
  /-- A token. -/
  | token (t : Token)
  /-- The place with a number. -/
  | free (place : Nat)

/-- The state of the scanner. -/
structure Scanner where
  /-- Where it is. -/
  cursor : Cursor
  /-- The output so far, the last piece first. -/
  pieces : List Piece := []
  /-- The number of places kept free so far. -/
  places : Nat := 0
  /-- What the places turned out to hold. -/
  filled : List (Nat × List Token) := []
  /-- The column of the innermost block. -/
  indent : Int := -1
  /-- The columns of the blocks around it. -/
  indents : List Int := []
  /-- What may turn out to be a key, for the text outside of brackets and then for each open
  bracket, the innermost first. -/
  possible : List (Option PossibleKey) := [none]
  /-- Whether a key can start here. -/
  keyAllowed : Bool := true

namespace Scanner

/-- Whether the scanner is inside brackets. -/
def inFlow (s : Scanner) : Bool := 1 < s.possible.length

/-- Where the scanner is. -/
def mark (s : Scanner) : Mark := s.cursor.mark

/-- The scanner after a token. -/
def put (s : Scanner) (kind : TokenKind) (mark : Mark) : Scanner :=
  { s with pieces := .token ⟨kind, mark⟩ :: s.pieces }

/-- The scanner after a token of so many characters. -/
def putMark (s : Scanner) (kind : TokenKind) (length : Nat) : Scanner :=
  { s.put kind s.mark with cursor := s.cursor.forward length }

/-- A fault where the scanner is. -/
def fault (s : Scanner) (problem : Text) (context : Option (Text × Mark) := none) : Fault :=
  { context, problem, mark := s.mark }

/-- The fault that something must be a key and no colon follows. -/
def missingColon (s : Scanner) (k : PossibleKey) : Fault :=
  s.fault "could not find expected ':'" (some ("while scanning a simple key", k.mark))

/-- The longest key on one line. -/
def longestKey : Nat := 1024

/-- What may be a key, as far as it can still be one: a key and its colon stand on one line. -/
def freshKeys (s : Scanner) :
    List (Option PossibleKey) → Except Fault (List (Option PossibleKey))
  | [] => .ok []
  | none :: ks => (freshKeys s ks).map (none :: ·)
  | some k :: ks =>
    if k.mark.line ≠ s.cursor.line || longestKey < s.cursor.offset - k.offset then
      if k.required then .error (s.missingColon k) else (freshKeys s ks).map (none :: ·)
    else (freshKeys s ks).map (some k :: ·)

/-- The scanner without what can no longer be a key. -/
def dropStaleKeys (s : Scanner) : Except Fault Scanner :=
  (s.freshKeys s.possible).map fun possible => { s with possible }

/-- The scanner with what came last in the innermost brackets not being a key. -/
def dropKey (s : Scanner) : Except Fault Scanner :=
  match s.possible with
  | some k :: ks =>
    if k.required then .error (s.missingColon k) else .ok { s with possible := none :: ks }
  | _ => .ok s

/-- The scanner with what starts here as a possible key. -/
def saveKey (s : Scanner) : Except Fault Scanner := do
  if !s.keyAllowed then return s
  let s ← s.dropKey
  let k : PossibleKey :=
    { place := s.places, required := !s.inFlow && s.indent = s.cursor.column
      offset := s.cursor.offset, mark := s.mark }
  return { s with
    pieces := .free s.places :: s.pieces, places := s.places + 1
    possible := some k :: s.possible.tail }

/-- The scanner with the blocks closed that start right of a column. -/
def closeBlocks (column : Int) (mark : Mark) : List Int → Scanner → Scanner
  | [], s => s
  | outer :: outers, s =>
    if column < s.indent then
      closeBlocks column mark outers
        { s.put .blockEnd mark with indent := outer, indents := outers }
    else s

/-- The scanner with the blocks closed that it has left; brackets know no blocks. -/
def unwind (s : Scanner) (column : Int) : Scanner :=
  if s.inFlow then s else closeBlocks column s.mark s.indents s

/-- The scanner in a new block, if the column lies right of the innermost one; whether it does. -/
def enter (s : Scanner) (column : Nat) : Bool × Scanner :=
  if s.indent < column then
    (true, { s with indents := s.indent :: s.indents, indent := column })
  else (false, s)

/-- The scanner after the start of a block, if one starts here. -/
def openBlock (s : Scanner) (kind : TokenKind) : Scanner :=
  let (isNew, s) := s.enter s.cursor.column
  if isNew then s.put kind s.mark else s

/-- The scanner after spaces, comments and line ends. -/
def skipBlank : (tries : Nat) → Scanner → Scanner
  | 0, s => s
  | tries + 1, s =>
    let c := s.cursor.skipWhile (· = ' ')
    let c := if c.next? = some '#' then c.skipWhile (!isLineEnd ·) else c
    match c.lineEnd? with
    | some (_, c) =>
      skipBlank tries { s with cursor := c, keyAllowed := s.keyAllowed || !s.inFlow }
    | none => { s with cursor := c }

/-- An opening bracket. -/
def openFlow (s : Scanner) (kind : TokenKind) : Except Fault Scanner := do
  let s ← s.saveKey
  return { s.putMark kind 1 with possible := none :: s.possible, keyAllowed := true }

/-- A closing bracket. -/
def closeFlow (s : Scanner) (kind : TokenKind) : Except Fault Scanner := do
  let s ← s.dropKey
  let possible := if s.inFlow then s.possible.tail else s.possible
  return { s.putMark kind 1 with possible, keyAllowed := false }

/-- A hyphen before an item. -/
def item (s : Scanner) : Except Fault Scanner := do
  if !s.inFlow && !s.keyAllowed then
    throw (s.fault "sequence entries are not allowed here")
  let s := if s.inFlow then s else s.openBlock .blockList
  let s ← { s with keyAllowed := true }.dropKey
  return s.putMark .item 1

/-- A question mark before a key. -/
def explicitKey (s : Scanner) : Except Fault Scanner := do
  if !s.inFlow && !s.keyAllowed then throw (s.fault "mapping keys are not allowed here")
  let s := if s.inFlow then s else s.openBlock .blockMap
  let s ← { s with keyAllowed := !s.inFlow }.dropKey
  return s.putMark .key 1

/-- A colon: what came before it is a key, or the key is left out. -/
def value (s : Scanner) : Except Fault Scanner := do
  match s.possible with
  | some k :: ks =>
    let (isNew, s) := if s.inFlow then (false, s) else s.enter k.mark.column
    let key : List Token :=
      if isNew then [⟨.blockMap, k.mark⟩, ⟨.key, k.mark⟩] else [⟨.key, k.mark⟩]
    let s := { s with
      filled := (k.place, key) :: s.filled, possible := none :: ks, keyAllowed := false }
    return s.putMark .value 1
  | _ =>
    if !s.inFlow && !s.keyAllowed then throw (s.fault "mapping values are not allowed here")
    let s := if s.inFlow then s else s.openBlock .blockMap
    let s ← { s with keyAllowed := !s.inFlow }.dropKey
    return s.putMark .value 1

/-- The characters of the names of anchors. -/
def isNameChar (c : Char) : Bool := c.isAlphanum || c = '-' || c = '_'

/-- The characters that may follow the name of an anchor. -/
def endsName : Option Char → Bool
  | none => true
  | some c =>
    isGap c || c = '?' || c = ':' || c = ',' || c = ']' || c = '}' || c = '%' || c = '@'
      || c.toNat = 96

/-- An anchor or alias: its name follows its mark. -/
def named (s : Scanner) (what : Text) (kind : Text → TokenKind) : Except Fault Scanner := do
  let start := s.mark
  let s := { ← s.saveKey with keyAllowed := false }
  let (name, c) := s.cursor.step.takeWhile isNameChar
  if name = [] || !endsName c.next? then
    throw { context := some ("while scanning " ++ what, start)
            problem := "expected alphabetic or numeric character, but found "
              ++ shownChar c.next?
            mark := c.mark }
  return { s.put (kind name) start with cursor := c }

/-- A tag. -/
def tag (s : Scanner) : Except Fault Scanner := do
  let start := s.mark
  let s := { ← s.saveKey with keyAllowed := false }
  let (name, c) := s.cursor.takeWhile fun x => !isGap x && !(s.inFlow && isFlowMark x)
  return { s.put (.tag name) start with cursor := c }

/-- A quoted scalar. -/
def quotedScalar (s : Scanner) (isDouble : Bool) : Except Fault Scanner := do
  let start := s.mark
  let s := { ← s.saveKey with keyAllowed := false }
  let (t, c) ← quoted isDouble s.cursor
  return { s.put (.scalar t false) start with cursor := c }

/-- A block of lines. -/
def blockScalar (s : Scanner) (folded : Bool) : Except Fault Scanner := do
  let start := s.mark
  let s ← { s with keyAllowed := true }.dropKey
  let (t, c) ← block folded s.indent s.cursor
  return { s.put (.scalar t false) start with cursor := c }

/-- A plain scalar. -/
def plainScalar (s : Scanner) : Except Fault Scanner := do
  let start := s.mark
  let s := { ← s.saveKey with keyAllowed := false }
  let (t, c, passed) := plain s.inFlow (s.indent + 1) s.cursor
  return { s.put (.scalar t true) start with cursor := c, keyAllowed := passed }

/-- Whether a plain scalar can start with a character that another one follows. -/
def startsPlain (inFlow : Bool) (x : Char) (second : Option Char) : Bool :=
  let indicators : Text := "-?:,[]\x7b\x7d#&*!|>'\"%@"
  if isGap x then false
  else if !indicators.contains x && x.toNat ≠ 96 then true
  else !endsWord second && (x = '-' || (!inFlow && (x = '?' || x = ':')))

/-- A document separator. -/
def separator (s : Scanner) (kind : TokenKind) : Except Fault Scanner := do
  let s ← (s.unwind (-1)).dropKey
  return { s.putMark kind 3 with keyAllowed := false }

/-- A directive, up to the end of its line. -/
def directiveLine (s : Scanner) : Except Fault Scanner := do
  let s ← (s.unwind (-1)).dropKey
  return { s.put .directive s.mark with
    cursor := s.cursor.skipWhile (!isLineEnd ·), keyAllowed := false }

/-- The next token; the scanner stands before a character `x`. -/
def token (s : Scanner) (x : Char) : Except Fault Scanner :=
  let second := s.cursor.second?
  let atStart := s.cursor.column = 0
  if x = '%' && atStart then s.directiveLine
  else if atStart && s.cursor.atMarker '-' then s.separator .documentStart
  else if atStart && s.cursor.atMarker '.' then s.separator .documentEnd
  else if x = '[' then s.openFlow .flowList
  else if x = '{' then s.openFlow .flowMap
  else if x = ']' then s.closeFlow .flowListEnd
  else if x = '}' then s.closeFlow .flowMapEnd
  else if x = ',' then do
    let s ← { s with keyAllowed := true }.dropKey
    return s.putMark .comma 1
  else if x = '-' && endsWord second then s.item
  else if x = '?' && (s.inFlow || endsWord second) then s.explicitKey
  else if x = ':' && (s.inFlow || endsWord second) then s.value
  else if x = '*' then s.named "an alias" .alias
  else if x = '&' then s.named "an anchor" .anchor
  else if x = '!' then s.tag
  else if x = '|' && !s.inFlow then s.blockScalar false
  else if x = '>' && !s.inFlow then s.blockScalar true
  else if x = '\'' then s.quotedScalar false
  else if x = '"' then s.quotedScalar true
  else if startsPlain s.inFlow x second then s.plainScalar
  else
    .error (s.fault ("found character " ++ Text.quoted [x] ++ " that cannot start any token")
      (some ("while scanning for the next token", s.mark)))

/-- The tokens of the output, each place holding what it was filled with. -/
def output (s : Scanner) : List Token :=
  s.pieces.reverse.flatMap fun
    | .token t => [t]
    | .free n => (s.filled.lookup n).getD []

/-- The end of the text. -/
def finish (s : Scanner) : Except Fault Scanner := do
  let s ← (s.unwind (-1)).dropKey
  return s.put .streamEnd s.mark

/-- The output and then a fault. -/
def breakOff (s : Scanner) (f : Fault) : List Token := s.output ++ [⟨.broken f, f.mark⟩]

/-- All tokens from here on. -/
def scanAll : (tries : Nat) → Scanner → List Token
  | 0, s => s.output
  | tries + 1, s =>
    match (skipBlank (s.cursor.rest.length + 1) s).dropStaleKeys with
    | .error f => s.breakOff f
    | .ok s =>
      let s := s.unwind s.cursor.column
      match s.cursor.next? with
      | none =>
        match s.finish with
        | .ok s => s.output
        | .error f => s.breakOff f
      | some x =>
        match s.token x with
        | .ok s => scanAll tries s
        | .error f => s.breakOff f

end Scanner

/-- The tokens of a text: the last one is the end of the text, or the place where no token can be
read. -/
def Token.scan (t : Text) : List Token :=
  let t := if t.head? = some byteOrderMark then t.tail else t
  Scanner.scanAll (t.length + 1) { cursor := .start t }

end Yaml

end StyleImport
