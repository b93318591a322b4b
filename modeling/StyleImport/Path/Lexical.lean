/-
Paths as texts, with no file system in sight.

A path is cut at `/` into names.  `normalize` drops the empty names and the dots and lets each `..`
cancel the name before it; a path that starts with exactly two slashes keeps both, any other
absolute path keeps one.  The working directory enters only through `absolute` and `relative`.

* `normalize`, `absolute` — the normal form of a path;
* `join`, `joinAll` — a path below another one, an absolute path starting over;
* `relative` — the way from one directory to a path;
* `splitLast`, `splitExtension` — the last name of a path and its extension.
-/
import StyleImport.Text.Basic

namespace StyleImport

namespace Path

/-- The name of a directory in itself. -/
def here : Text := ['.']

/-- The name of a directory's parent in it. -/
def up : Text := ['.', '.']

/-- Whether a path starts at the root. -/
def isAbsolute : Text → Bool
  | '/' :: _ => true
  | _ => false

/-- The slashes that a normal form keeps in front: two if the path starts with exactly two, one if
it starts with one or more than two. -/
def anchor : Text → Text
  | '/' :: '/' :: '/' :: _ => ['/']
  | '/' :: '/' :: _ => ['/', '/']
  | '/' :: _ => ['/']
  | _ => []

/-- The names of a path, the empty ones left out. -/
def components (p : Text) : List Text := (Text.pieces '/' p).filter (· ≠ [])

/-- One more name on a normal form, whose names stand in `stack` with the last one first: an empty
name and a dot change nothing, `..` takes the last name away if there is one to take. -/
def pushName (absolute : Bool) (stack : List Text) (name : Text) : List Text :=
  if name = [] || name = here then stack
  else if name ≠ up || (!absolute && stack = []) || stack.head? = some up then name :: stack
  else stack.tail

/-- The names of the normal form. -/
def reduce (absolute : Bool) (names : List Text) : List Text :=
  (names.foldl (pushName absolute) []).reverse

/-- The normal form of a path; the dot stands for an empty one. -/
def normalize (p : Text) : Text :=
  let names := reduce (isAbsolute p) (Text.pieces '/' p)
  let q := anchor p ++ Text.joinWith ['/'] names
  if q = [] then here else q

/-- The path `q` seen from the directory `p`. -/
def join (p q : Text) : Text :=
  if isAbsolute q then q
  else if p = [] || p.getLast? = some '/' then p ++ q
  else p ++ '/' :: q

/-- Each path seen from the one before it. -/
def joinAll (p : Text) (qs : List Text) : Text := qs.foldl join p

/-- The normal form of a path seen from the working directory `cwd`. -/
def absolute (cwd p : Text) : Text :=
  normalize (if isAbsolute p then p else join cwd p)

/-- Two lists without the part at their front that they share. -/
def dropShared : List Text → List Text → List Text × List Text
  | a :: as, b :: bs => if a = b then dropShared as bs else (a :: as, b :: bs)
  | as, bs => (as, bs)

/-- The names that lead from the directory with the names `start` to the path with the names
`target`. -/
def wayNames (start target : List Text) : List Text :=
  let (ups, downs) := dropShared start target
  List.replicate ups.length up ++ downs

/-- The way from `start` to `p`, both seen from the working directory. -/
def relative (cwd p start : Text) : Text :=
  match wayNames (components (absolute cwd start)) (components (absolute cwd p)) with
  | [] => here
  | names => Text.joinWith ['/'] names

/-- A path up to its last name, and that name.  The slashes between them are dropped unless nothing
stands before them. -/
def splitLast (p : Text) : Text × Text :=
  match Text.cutLast '/' p with
  | none => ([], p)
  | some (before, name) =>
    let head := before ++ ['/']
    (if head.all (· = '/') then head else Text.dropEndWhile (· = '/') head, name)

/-- The path without its last name. -/
def directory (p : Text) : Text := (splitLast p).1

/-- A path up to the last dot of its last name, and the rest from that dot on.  Dots at the front of
the name start no extension. -/
def splitExtension (p : Text) : Text × Text :=
  let name := (splitLast p).2
  match Text.cutLast '.' name with
  | none => (p, [])
  | some (stem, rest) =>
    if stem.all (· = '.') then (p, [])
    else (p.take (p.length - (rest.length + 1)), '.' :: rest)

/-- The extension of a path, with its dot; empty if there is none. -/
def extension (p : Text) : Text := (splitExtension p).2

end Path

end StyleImport
