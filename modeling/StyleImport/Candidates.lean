/-
The files that a logical name may mean.

A name such as `widgets/button` may live on disk as `button.scss`, as the partial `_button.scss` or
as `button/_index.scss`.  `NameForm.variants` lists these spellings in order of priority, and
`NameForm.below` places them below a location.

`Candidates` is the ordered set of absolute paths to try: the first insertion wins, so adding a
location never moves an earlier candidate.
-/
import StyleImport.Uri

namespace StyleImport

/-- Absolute paths in normal form, each once, in the order in which they were added. -/
structure Candidates where
  /-- The paths. -/
  paths : List Text := []
  /-- No path stands twice. -/
  nodup : paths.Nodup := by exact List.nodup_nil

namespace Candidates

/-- No candidates. -/
def empty : Candidates := {}

/-- Whether the path that `p` means is a candidate. -/
def contains (cwd : Text) (cs : Candidates) (p : Text) : Bool :=
  cs.paths.contains (Path.absolute cwd p)

/-- One more candidate, unless it is there already. -/
def add (cwd : Text) (cs : Candidates) (p : Text) : Candidates :=
  if h : Path.absolute cwd p ∈ cs.paths then cs
  else
    ⟨cs.paths ++ [Path.absolute cwd p], by
      rw [List.nodup_append]
      exact ⟨cs.nodup, by simp, fun a ha b hb => by
        rw [List.mem_singleton] at hb
        exact fun hab => h (hb ▸ hab ▸ ha)⟩⟩

/-- More candidates, one after the other. -/
def addAll (cwd : Text) (cs : Candidates) (ps : List Text) : Candidates :=
  ps.foldl (add cwd) cs

@[simp]
theorem paths_add (cwd : Text) (cs : Candidates) (p : Text) :
    (cs.add cwd p).paths
      = if Path.absolute cwd p ∈ cs.paths then cs.paths
        else cs.paths ++ [Path.absolute cwd p] := by
  unfold add
  split <;> rfl

end Candidates

/-- The extensions of stylesheets, unless the settings say otherwise. -/
def defaultExtensions : List Text := [".scss", ".sass", ".css"]

/-- The names of the files that stand for their directory. -/
def indexNames : List Text := ["_index", "index"]

/-- A logical name, cut into the parts that its variants are made of. -/
structure NameForm where
  /-- The name in normal form; empty for the import of a bare module. -/
  name : Text
  /-- The directory part: empty for a single name, the root for a name at the root. -/
  directory : Text
  /-- The last name. -/
  base : Text
  /-- The extension that the last name has, if it is a known one. -/
  givenExtension : Option Text
  /-- The known extensions in order of priority. -/
  extensions : List Text
  /-- Whether separators are unified. -/
  unified : Bool

namespace NameForm

/-- The form of a logical name. -/
def of (unified : Bool) (extensions : List Text) (name : Text) : NameForm :=
  let name := if name = [] then [] else Uri.pathOf unified name
  let (directory, base) := (Text.cutLast '/' name).getD ([], name)
  let directory := if directory = [] && Path.isAbsolute name then ['/'] else directory
  let ext := Path.extension base
  { name, directory, base, extensions, unified
    givenExtension := if ext ≠ [] && extensions.contains ext then some ext else none }

/-- Whether the last name is that of a partial. -/
def isPartial (n : NameForm) : Bool := n.base.head? = some '_'

/-- The path of a file in a directory; no directory is no path in front. -/
def inDirectory (directory file : Text) : Text :=
  if directory = [] then file
  else if directory = ['/'] then '/' :: file
  else directory ++ '/' :: file

/-- The index files with each extension, every name before the next extension. -/
def indexFiles (n : NameForm) : List Text :=
  n.extensions.flatMap fun ext => indexNames.map (· ++ ext)

/-- The partial's name without its extension. -/
def partialStem (n : NameForm) : Text :=
  '_' :: n.base.take (n.base.length - (n.givenExtension.getD []).length)

/-- The partial form of the name with each of the extensions; a name that is a partial has none. -/
def partials (n : NameForm) (extensions : List Text) : List Text :=
  if n.isPartial then []
  else extensions.map fun ext => inDirectory n.directory (n.partialStem ++ ext)

/-- Every spelling of the name, in order of priority: the name itself; with each extension; the
partial; and the index files of the directory of that name.  A name with a known extension is only
itself and its partial, and the empty name is only the index files. -/
def variants (n : NameForm) : List Text :=
  if n.name = [] then n.indexFiles
  else match n.givenExtension with
    | some ext => n.name :: n.partials [ext]
    | none =>
      n.name :: n.extensions.map (n.name ++ ·) ++ n.partials n.extensions
        ++ n.indexFiles.map (inDirectory n.name)

/-- A spelling below a location; an absolute spelling is below none. -/
def place (n : NameForm) (location variant : Text) : Text :=
  if Path.isAbsolute variant then variant
  else Uri.pathOf n.unified (Text.joinWith ['/'] [location, variant])

/-- Every spelling of the name below a location. -/
def below (n : NameForm) (location : Text) : List Text := n.variants.map (n.place location)

/-- The candidates for the name below each location. -/
def candidates (n : NameForm) (cwd : Text) (locations : List Text) : Candidates :=
  locations.foldl (fun cs location => cs.addAll cwd (n.below location)) .empty

end NameForm

end StyleImport
