/-
Collapsed paths: the form in which settings and module records hold a path.

Collapsing drops empty names and dots but keeps every `..`, since without the file system nothing is
known about what a name before it leads to.  An empty path collapses to the dot.
-/
import StyleImport.Path.Lexical

namespace StyleImport

namespace Path

/-- The names of a collapsed path. -/
def names (p : Text) : List Text := (Text.pieces '/' p).filter fun n => n ≠ [] && n ≠ here

/-- The path with the given slashes in front and the given names. -/
def ofNames (anchor : Text) (names : List Text) : Text :=
  match anchor ++ Text.joinWith ['/'] names with
  | [] => here
  | p => p

/-- The collapsed form of a path. -/
def collapse (p : Text) : Text := ofNames (anchor p) (names p)

/-- The collapsed path `q` seen from the directory `p`. -/
def append (p q : Text) : Text := collapse (join p q)

/-- The collapsed path seen from the working directory, without cancelling any `..`. -/
def fromRoot (cwd p : Text) : Text :=
  if isAbsolute p then collapse p else append cwd p

/-- The last name of a path; the root has none. -/
def lastName (p : Text) : Text := ((names p).getLast?).getD []

/-- The path without its last name; the root and the dot stay as they are. -/
def parent (p : Text) : Text := ofNames (anchor p) (names p).dropLast

/-- The path with each of the first so many names, the longest first. -/
def prefixes (anchor : Text) (names : List Text) : Nat → List Text
  | 0 => [ofNames anchor []]
  | n + 1 => ofNames anchor (names.take (n + 1)) :: prefixes anchor names n

/-- The path itself, its parent, the parent's parent and so on up to the root. -/
def ancestors (p : Text) : List Text := prefixes (anchor p) (names p) (names p).length

end Path

end StyleImport
