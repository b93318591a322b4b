/-
Looking up paths in a file tree.

A path is walked name by name from the root or from the working directory.  Every name must be
looked up in a directory; `.` stays there and `..` goes to the parent *as reached*, so after a link
it is the parent of the link's target.  A link on the way is replaced by its target; forty links are
followed at most.  A slash at the end asks for a directory.

* `Disk.walk` — the walk itself;
* `Disk.lookup` — what a path leads to, with the limits on paths;
* `Disk.isFile`, `Disk.isDirectory`, `Disk.present` — questions that take every error for "no";
* `Disk.isFileOrFail` — the question that lets unusual errors through;
* `Disk.readText`, `Disk.writeText`, … — operations on files and directories.
-/
import StyleImport.Disk.Tree
import StyleImport.Error

namespace StyleImport

/-- A file tree and where the process stands in it. -/
structure Disk where
  /-- The entries of the root directory. -/
  top : List (Text × Node) := []
  /-- The names that lead from the root to the working directory. -/
  cwd : List Text := []

/-- What a walk ends at: the names from the root, and the node, if there is one. -/
structure Place where
  /-- The names that lead there from the root, through no link. -/
  names : List Text
  /-- What is there; nothing if only the last name is missing. -/
  node : Option Node

namespace Disk

/-- The root directory. -/
def root (d : Disk) : Node := .directory d.top

/-- The tree with another root directory. -/
def withRoot (d : Disk) (n : Node) : Disk := { d with top := n.entries }

/-- The tree with a node at a list of names. -/
def put (d : Disk) (names : List Text) (n : Node) : Disk := d.withRoot (Node.insert n d.root names)

/-- An absolute path of names. -/
def pathOf (names : List Text) : Text := '/' :: Text.joinWith ['/'] names

/-- The path of the working directory. -/
def cwdPath (d : Disk) : Text := pathOf d.cwd

/-- The names that a walk along a path takes; the dot at the end stands for a slash there. -/
def walkNames (p : Text) : List Text :=
  Path.components p ++ (if p.getLast? = some '/' then [Path.here] else [])

/-- The longest name that a directory can hold, in bytes. -/
def longestName : Nat := 255

/-- The length that no path may reach, in bytes. -/
def pathLimit : Nat := 4096

/-- The number of links that a walk follows. -/
def linkLimit : Nat := 40

/-- The walk of `d` along names, from the directory that `at_` leads to, with `links` links left to
follow.  Errors are about the path `p`.  A link at the very end is followed if `follow` says so. -/
def walk (d : Disk) (p : Text) (follow : Bool) (links : Nat) (at_ : List Text) :
    List Text → Except OsError Place
  | [] => .ok ⟨at_, d.root.at? at_⟩
  | name :: names =>
    match d.root.at? at_ with
    | some (.directory es) =>
      if name = Path.here then walk d p follow links at_ names
      else if name = Path.up then walk d p follow links at_.dropLast names
      else if longestName < (Utf8.encode name).length then .error (.nameTooLong p)
      else match Entries.get? name es with
        | none => if names = [] then .ok ⟨at_ ++ [name], none⟩ else .error (.noEntry p)
        | some (.link target) =>
          if names = [] && !follow then .ok ⟨at_ ++ [name], some (.link target)⟩
          else match links with
            | 0 => .error (.tooManyLinks p)
            | links + 1 =>
              if target = [] then .error (.noEntry p)
              else walk d p follow links (if Path.isAbsolute target then [] else at_)
                (walkNames target ++ names)
        | some _ => walk d p follow links (at_ ++ [name]) names
    | _ => .error (.notDirectory p)
termination_by names => (links, names.length)

/-- The place that a path means; its last name may be missing. -/
def place (d : Disk) (p : Text) (follow : Bool := true) : Except ReadFailure Place :=
  if p.contains '\x00' then .error .nulInPath
  else if p = [] then .error (.system (.noEntry p))
  else if pathLimit ≤ (Utf8.encode p).length then .error (.system (.nameTooLong p))
  else
    (walk d p follow linkLimit (if Path.isAbsolute p then [] else d.cwd) (walkNames p)).mapError
      .system

/-- What a path leads to, and where. -/
def lookup (d : Disk) (p : Text) (follow : Bool := true) :
    Except ReadFailure (List Text × Node) := do
  match ← d.place p follow with
  | ⟨names, some node⟩ => return (names, node)
  | ⟨_, none⟩ => throw (.system (.noEntry p))

/-- What a path leads to, if that is anything. -/
def node? (d : Disk) (p : Text) : Option Node := (d.lookup p).toOption.map fun (_, n) => n

/-- Whether a path leads to a file. -/
def isFile (d : Disk) (p : Text) : Bool := (d.node? p).any Node.isFile

/-- Whether a path leads to a directory. -/
def isDirectory (d : Disk) (p : Text) : Bool := (d.node? p).any Node.isDirectory

/-- Whether a path leads to anything. -/
def present (d : Disk) (p : Text) : Bool := (d.node? p).isSome

/-- Whether something has this path, a link that leads nowhere included. -/
def presentAsLink (d : Disk) (p : Text) : Bool := (d.lookup p false).toOption.isSome

/-- The answer to a question about what a path leads to: absence and impossible paths are "no", any
other error is let through. -/
def askOrFail (d : Disk) (p : Text) (question : Node → Bool) : Except ReadFailure Bool :=
  match d.lookup p with
  | .ok (_, n) => .ok (question n)
  | .error .nulInPath => .ok false
  | .error (.system e) => if e.isAbsence then .ok false else .error (.system e)
  | .error e => .error e

/-- Whether a path leads to a file; unusual errors are let through. -/
def isFileOrFail (d : Disk) (p : Text) : Except ReadFailure Bool := d.askOrFail p Node.isFile

/-- Whether a path leads to anything; unusual errors are let through. -/
def presentOrFail (d : Disk) (p : Text) : Except ReadFailure Bool := d.askOrFail p fun _ => true

/-- The bytes of a file. -/
def readBytes (d : Disk) (p : Text) : Except ReadFailure (List UInt8) := do
  match ← d.lookup p with
  | (_, .file bytes _) => return bytes
  | _ => throw (.system (.isDirectory p))

/-- The text of a file, its line ends translated. -/
def readText (d : Disk) (p : Text) : Except ReadFailure Text := do
  let bytes ← d.readBytes p
  match Utf8.decode bytes with
  | .ok t => return Utf8.translateNewlines t
  | .error f => throw (.undecodable f)

/-- The entries of a directory. -/
def list (d : Disk) (p : Text) : Except ReadFailure (List (Text × Node)) := do
  match ← d.lookup p with
  | (_, .directory es) => return es
  | _ => throw (.system (.notDirectory p))

/-- The disk after bytes are written to a file, which is made if it is missing. -/
def writeBytes (d : Disk) (p : Text) (bytes : List UInt8) (modified : Int := 0) :
    Except ReadFailure Disk := do
  match ← d.place p with
  | ⟨_, some (.directory _)⟩ => throw (.system (.isDirectory p))
  | ⟨names, _⟩ => return d.put names (.file bytes modified)

/-- The disk after a text is written to a file. -/
def writeText (d : Disk) (p t : Text) : Except ReadFailure Disk := d.writeBytes p (Utf8.encode t)

/-- The disk after a text is written behind what a file holds. -/
def appendText (d : Disk) (p t : Text) : Except ReadFailure Disk := do
  match ← d.place p with
  | ⟨_, some (.directory _)⟩ => throw (.system (.isDirectory p))
  | ⟨names, some (.file bytes modified)⟩ =>
    return d.put names (.file (bytes ++ Utf8.encode t) modified)
  | ⟨names, _⟩ => return d.put names (.file (Utf8.encode t) 0)

/-- The disk after a directory is made. -/
def makeDirectory (d : Disk) (p : Text) : Except ReadFailure Disk := do
  match ← d.place p false with
  | ⟨_, some _⟩ => throw (.system (.alreadyExists p))
  | ⟨names, none⟩ => return d.put names .emptyDirectory

/-- The disk with a directory at `p`, which may be there already. -/
def makeMissing (d : Disk) (p : Text) : Except ReadFailure Disk :=
  match d.makeDirectory p with
  | .ok d => .ok d
  | .error (.system e) => if e.code ≠ 2 && d.isDirectory p then .ok d else .error (.system e)
  | .error e => .error e

/-- What comes of making a directory at `p` and whichever of `tries` of its ancestors are missing,
and the disk after that: ancestors stay, even if the directory itself cannot be made. -/
def tryDirectory (d : Disk) : (tries : Nat) → Text → Except ReadFailure Unit × Disk
  | 0, p => (.error (.system (.noEntry p)), d)
  | tries + 1, p =>
    match d.makeMissing p with
    | .ok d => (.ok (), d)
    | .error (.system e) =>
      if e.code = 2 && Path.parent p ≠ p then
        match d.tryDirectory tries (Path.parent p) with
        | (.error e, d) => (.error e, d)
        | (.ok (), d) =>
          match d.makeMissing p with
          | .ok d => (.ok (), d)
          | .error e => (.error e, d)
      else (.error (.system e), d)
    | .error e => (.error e, d)

/-- What comes of making a directory at `p` and all its ancestors, and the disk after that. -/
def tryDirectories (d : Disk) (p : Text) : Except ReadFailure Unit × Disk :=
  d.tryDirectory ((Path.names p).length + 1) p

/-- The disk with a directory at `p` and all its ancestors. -/
def makeDirectories (d : Disk) (p : Text) : Except ReadFailure Disk :=
  match d.tryDirectories p with
  | (.ok (), d) => .ok d
  | (.error e, _) => .error e

end Disk

end StyleImport
