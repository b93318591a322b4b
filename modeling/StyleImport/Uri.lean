/-
Identifiers taken apart: a path, a query and a fragment.

The path of an identifier ends at the first `?` or `#`.  A query starts with `?` and ends before the
first `#`; a fragment starts with `#` and ends with its line.  An identifier without a path has
neither.  Paths are kept in normal form, and, where separators are unified, with every run of
slashes and backslashes written as one separator.

* `Uri.parse`, `Uri.render` — from an identifier and back;
* `Uri.portable` — the form of an identifier that is spelled alike on every host;
* `Uri.pathWith` — the path with other separators or seen from a directory;
* `Uri.addQuery` — one more piece of the query.
-/
import StyleImport.Path.Lexical

namespace StyleImport

/-- How a path is spelled. -/
structure Spelling where
  /-- What is written between names. -/
  separator : Text := ['/']
  /-- Whether runs of slashes and backslashes are rewritten at all. -/
  unified : Bool := true
  deriving DecidableEq, Repr

namespace Spelling

/-- Whether separators are unified: as the flag says, or, without a flag, unless the setting of the
environment is the word `false`. -/
def isUnified (flag : Option Bool) (setting : Option Text) : Bool :=
  flag.getD (setting ≠ some "false")

/-- The characters that separate names on some host. -/
def isSeparator (c : Char) : Bool := c = '/' || c = '\\'

/-- Each run of separators written as `sep`; `inRun` says that the run before the text goes on. -/
def unifyRuns (sep : Text) : (inRun : Bool) → Text → Text
  | _, [] => []
  | inRun, c :: cs =>
    if isSeparator c then (if inRun then [] else sep) ++ unifyRuns sep true cs
    else c :: unifyRuns sep false cs

/-- The text with the separator `sep`, if separators are unified. -/
def respell (unified : Bool) (sep t : Text) : Text :=
  if unified then unifyRuns sep false t else t

end Spelling

/-- An identifier taken apart. -/
structure Uri where
  /-- How the path is spelled. -/
  spelling : Spelling
  /-- The path, in normal form. -/
  path : Text := []
  /-- The query, with its question mark. -/
  search : Text := []
  /-- The fragment, with its number sign. -/
  fragment : Text := []
  deriving DecidableEq, Repr

namespace Uri

/-- The characters that end a path. -/
def isSuffixMark (c : Char) : Bool := c = '?' || c = '#'

/-- The path of an identifier, its query and its fragment. -/
def split (t : Text) : Text × Text × Text :=
  let path := t.takeWhile (!isSuffixMark ·)
  if path = [] then ([], [], [])
  else
    let suffix := t.dropWhile (!isSuffixMark ·)
    let (search, rest) := match suffix with
      | '?' :: _ => (suffix.takeWhile (· ≠ '#'), suffix.dropWhile (· ≠ '#'))
      | _ => ([], suffix)
    (path, search, rest.takeWhile (· ≠ '\n'))

/-- The identifier with another path; the empty path stays empty. -/
def setPath (u : Uri) (p : Text) : Uri :=
  if p = [] then { u with path := [] }
  else
    let respell := Spelling.respell u.spelling.unified
    { u with path := respell u.spelling.separator (Path.normalize (respell ['/'] p)) }

/-- The characters that separate the pieces of a query. -/
def isQueryMark (c : Char) : Bool := c = '?' || c = '&'

/-- The identifier with one more piece of the query.  The marks in front of the piece give way to a
question mark for the first piece and an ampersand for any other; an empty piece adds nothing. -/
def addQuery (u : Uri) (piece : Text) : Uri :=
  if piece = [] then u
  else
    let mark := if u.search = [] then '?' else '&'
    { u with search := u.search ++ mark :: piece.dropWhile isQueryMark }

/-- The identifier with another query. -/
def setQuery (u : Uri) (piece : Text) : Uri := addQuery { u with search := [] } piece

/-- The identifier with another fragment. -/
def setFragment (u : Uri) (fragment : Text) : Uri := { u with fragment }

/-- An identifier taken apart. -/
def parse (spelling : Spelling) (t : Text) : Uri :=
  let (path, search, fragment) := split t
  (((⟨spelling, [], [], []⟩ : Uri).setPath path).setQuery search).setFragment fragment

/-- The identifier put together. -/
def render (u : Uri) : Text := u.path ++ u.search ++ u.fragment

/-- The portable form of an identifier: its path is spelled with slashes. -/
def portable (unified : Bool) (t : Text) : Text := (parse { unified } t).render

/-- The path written with `sep`, and, if the spelling of `base` is how it starts, as the way to it
from `base`.  An empty separator or base stands for none. -/
def pathWith (u : Uri) (cwd : Text) (sep : Text := []) (base : Text := []) : Text :=
  let respell := Spelling.respell u.spelling.unified
  let sep := if sep = [] then u.spelling.separator else sep
  let p :=
    if base = [] then u.path
    else
      let p := respell ['/'] u.path
      let base := respell ['/'] base
      if base.isPrefixOf p then Path.relative cwd p base else p
  respell sep p

/-- The path of an identifier spelled with slashes. -/
def pathOf (unified : Bool) (t : Text) : Text := (parse { unified } t).path

/-- The path of the non-empty fragments one below the other. -/
def joinFragments (unified : Bool) (fragments : List Text) : Text :=
  pathOf unified (Text.joinWith ['/'] (fragments.filter (· ≠ [])))

/-- Whether an identifier starts at the place where it is written. -/
def isRelative : Text → Bool
  | '.' :: _ => true
  | _ => false

end Uri

end StyleImport
