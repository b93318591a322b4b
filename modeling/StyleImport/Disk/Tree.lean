/-
File trees.

A node is a file with its bytes, a directory with its entries, or a symbolic link with its target as
written.  `Node.at?` and `Node.insert` read and change a tree along a list of names, without
following any link: what a *path* leads to is the business of `Disk.Lookup`.
-/
import StyleImport.Data.Entries
import StyleImport.Text.Basic

namespace StyleImport

/-- A file, directory or link. -/
inductive Node where
  /-- A file: its bytes and the time of its last change, in nanoseconds since the epoch. -/
  | file (bytes : List UInt8) (modified : Int)
  /-- A directory: its entries by name. -/
  | directory (entries : List (Text × Node))
  /-- A symbolic link: its target as written. -/
  | link (target : Text)
  deriving Repr

namespace Node

/-- The directory without entries. -/
def emptyDirectory : Node := .directory []

/-- Whether the node is a file. -/
def isFile : Node → Bool
  | .file .. => true
  | _ => false

/-- Whether the node is a directory. -/
def isDirectory : Node → Bool
  | .directory _ => true
  | _ => false

/-- The entries of a directory; no other node has any. -/
def entries : Node → List (Text × Node)
  | .directory es => es
  | _ => []

/-- The node that a list of names leads to. -/
def at? : Node → List Text → Option Node
  | n, [] => some n
  | .directory es, name :: names =>
    match Entries.get? name es with
    | some child => child.at? names
    | none => none
  | _, _ :: _ => none

/-- The tree with `new` at a list of names.  Missing directories on the way are made; a node on the
way that is no directory gives way to one. -/
def insert (new : Node) : Node → List Text → Node
  | _, [] => new
  | n, name :: names =>
    .directory (Entries.put name
      (insert new ((Entries.get? name n.entries).getD emptyDirectory) names) n.entries)

/-- The tree without what stands at a list of names. -/
def erase : Node → List Text → Node
  | .directory es, [name] => .directory (Entries.erase name es)
  | .directory es, name :: names =>
    match Entries.get? name es with
    | some child => .directory (Entries.put name (child.erase names) es)
    | none => .directory es
  | n, _ => n

@[simp]
theorem at?_nil (n : Node) : n.at? [] = some n := by
  cases n <;> rfl

/-- What was inserted is found where it was inserted. -/
theorem at?_insert_self (new n : Node) (names : List Text) :
    (insert new n names).at? names = some new := by
  induction names generalizing n with
  | nil => simp [insert]
  | cons name names ih =>
    simp only [insert, at?, Entries.get?_put_self]
    exact ih _

end Node

end StyleImport
