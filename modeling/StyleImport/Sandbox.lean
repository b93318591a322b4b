/-
The sandbox of the file queries.

A sandbox either admits everything or lists root directories; a path is admitted if it is one of the
roots or lies below one.  The question is lexical: both paths are normalized and their names
compared, and no link is followed.
-/
import StyleImport.Path.Lexical

namespace StyleImport

/-- What the file queries may touch. -/
inductive Sandbox where
  /-- Everything. -/
  | unrestricted
  /-- The directories listed and what lies below them. -/
  | roots (paths : List Text)
  deriving DecidableEq, Repr

namespace Sandbox

/-- The list without the later copies of an item. -/
def firstCopies (paths : List Text) : List Text :=
  paths.foldl (fun acc p => if acc.contains p then acc else acc ++ [p]) []

/-- The sandbox of the given directories, seen from the working directory. -/
def ofRoots (cwd : Text) (paths : List Text) : Sandbox :=
  .roots (firstCopies (paths.map (Path.absolute cwd)))

/-- Whether a path is the directory `root` or lies below it: the way there does not start
upwards. -/
def isBelow (cwd p root : Text) : Bool :=
  let way := Path.relative cwd (Path.absolute cwd p) (Path.absolute cwd root)
  way ≠ Path.up && !(Path.up ++ ['/']).isPrefixOf way

/-- Whether the sandbox admits a path. -/
def permits (cwd : Text) (sandbox : Sandbox) (p : Text) : Bool :=
  match sandbox with
  | .unrestricted => true
  | .roots paths => paths.any (isBelow cwd p)

end Sandbox

end StyleImport
