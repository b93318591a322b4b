/-
The paths that an import looks at.

A program that keeps only a part of a file tree in its memory has to know which paths matter.
`Plan.asked` lists those that a plan asks about when it runs on what is known; where an answer turns
out otherwise, a second run asks about more.
-/
import StyleImport.Import.World

namespace StyleImport

namespace Registry

/-- The paths where a lookup of a module's record may look. -/
def asked (cwd name context : Text) : List Text :=
  let place := Path.fromRoot cwd context
  place :: (Path.ancestors place).map (metadataPath name)

end Registry

/-- The paths that a plan asks about on a compilation. -/
def Plan.asked {σ α : Type} : Plan α → Compilation σ → List Text
  | done _, _ | fail _, _ => []
  | isFile p next, s => p :: (next (s.host.isFile s.state p)).asked s
  | lookup name context next, s =>
    Registry.asked s.cwd name context ++
      match s.lookup name context with
      | (.ok r, s) => (next r).asked s
      | (.error _, _) => []
  | read p next, s =>
    let (outcome, s) := s.readOnce p
    p :: (next outcome).asked s
  | askHost identifier prev next, s =>
    match s.ask identifier prev with
    | (.ok r, s) => (next r).asked s
    | (.error _, _) => []
  | mark file next, s =>
    let (first, s) := s.mark file
    (next first).asked s
  | register token path next, s =>
    let (bound, s) := s.register token path
    (next bound).asked s
  | note e next, s => next.asked (s.noteAll [e])
  | pause next, s => next.asked s

end StyleImport
