/-
The paths that a pattern describes.

A pattern is a path whose names may be patterns.  It is matched name by name below a base directory:
names that start with a dot are found only by patterns that do, a directory that cannot be listed
has no names, and a pattern that ends in a slash describes directories only.

* `Disk.glob` — the paths that a pattern describes, in the order of their code points.
-/
import StyleImport.Disk.Lookup
import StyleImport.Disk.Pattern

namespace StyleImport

namespace Disk

/-- A path below a base; where one of the two is empty, the other alone. -/
def below (base p : Text) : Text :=
  if base = [] then p else if p = [] then base else Path.join base p

/-- Whether a name is one that patterns do not find of themselves. -/
def isHidden (name : Text) : Bool := name.head? = some '.'

/-- The names in a directory, or only those that lead to directories.  A directory that cannot be
listed has none. -/
def namesIn (d : Disk) (dir : Text) (onlyDirectories : Bool) : Except ReadFailure (List Text) :=
  let dir := if dir = [] then Path.here else dir
  match d.list dir with
  | .ok entries =>
    let names := entries.map (·.1)
    .ok (if onlyDirectories then names.filter fun n => d.isDirectory (Path.join dir n) else names)
  | .error .nulInPath => .error .nulInPath
  | .error _ => .ok []

/-- The names in a directory that a pattern describes. -/
def namesMatching (d : Disk) (dir pattern : Text) (onlyDirectories : Bool) :
    Except ReadFailure (List Text) :=
  (d.namesIn dir onlyDirectories).map fun names =>
    names.filter fun n =>
      (isHidden pattern || !isHidden n) && Pattern.accepts (Pattern.parse pattern) n

/-- A plain name in a directory, if it is there; the empty name is there if the directory is. -/
def plainName (d : Disk) (dir name : Text) : List Text :=
  if if name = [] then d.isDirectory dir else d.presentAsLink (below dir name) then [name] else []

/-- The paths below `base` that a pattern describes, directory by directory. -/
def expand (d : Disk) (base p : Text) (onlyDirectories : Bool) :
    Except ReadFailure (List Text) :=
  let (dir, name) := Path.splitLast p
  if !Pattern.hasMagic p then
    .ok (if if name = [] then d.isDirectory (below base dir) else d.presentAsLink (below base p)
      then [p] else [])
  else if dir = [] then d.namesMatching base name onlyDirectories
  else do
    let dirs ←
      if _h : Pattern.hasMagic dir ∧ dir.length < p.length then d.expand base dir true
      else .ok [dir]
    let found ← dirs.mapM fun dir => do
      let names ←
        if Pattern.hasMagic name then d.namesMatching (below base dir) name onlyDirectories
        else .ok (d.plainName (below base dir) name)
      return names.map (Path.join dir)
    return found.flatten
termination_by p.length
decreasing_by exact _h.2

/-- The paths below `base` that a pattern describes, in the order of their code points. -/
def glob (d : Disk) (base p : Text) : Except ReadFailure (List Text) :=
  if p = [] then .ok [] else (d.expand base p false).map (·.mergeSort Text.le)

end Disk

end StyleImport
