/-
The questions that stylesheets may ask about files.

A query takes stylesheet values and answers with one.  Every query that touches a file asks the
sandbox first.  The errors that the library promises, and errors of the file system, come back as
error values; anything else, such as a value that is no stylesheet value or a path that no file
system takes, is a failure of the call.

* `Query.answer` — a query with its arguments;
* `Query.callDeclared` — the same, as stylesheets call it;
* `Query.glob` — the entries of a directory that a pattern describes.
-/
import StyleImport.Disk.Glob
import StyleImport.Import.Session
import StyleImport.Sandbox
import StyleImport.Stylesheet.HostValue

namespace StyleImport

/-- A question about files. -/
inductive Query where
  /-- A path below the one that a token is bound to. -/
  | absolutePath
  /-- Paths joined. -/
  | join
  /-- Whether a path leads anywhere. -/
  | exist
  /-- What separates the names of a path. -/
  | pathSeparator
  /-- The files of a directory that a pattern describes. -/
  | listFiles
  /-- The directories of a directory that a pattern describes. -/
  | listDirectories
  /-- The parts of a path. -/
  | parseFilename
  /-- What is known about a file. -/
  | info
  /-- The text of a file. -/
  | contents
  deriving DecidableEq, Repr

/-- What the answers to queries depend on. -/
structure QueryContext where
  /-- The file tree. -/
  disk : Disk
  /-- The sandbox. -/
  sandbox : Sandbox
  /-- The session whose bindings count. -/
  session : Session

namespace QueryContext

/-- Whether the sandbox admits a path. -/
def permits (c : QueryContext) (p : Text) : Bool := c.sandbox.permits c.disk.cwdPath p

/-- Nothing, if the sandbox admits a path. -/
def check (c : QueryContext) (p : Text) : Except Failure Unit :=
  if c.permits p then .ok () else .error (.promised (.denied p))

end QueryContext

namespace Query

/-- All queries. -/
def all : List Query :=
  [.absolutePath, .join, .exist, .pathSeparator, .listFiles, .listDirectories, .parseFilename,
    .info, .contents]

/-- How stylesheets see a query: its name and its parameters. -/
def signature : Query → Text
  | .absolutePath =>
    "stylepath-fs-absolute-path($fs-registered-pathnames, $path-id, $segments...)"
  | .join => "stylepath-fs-join($segments...)"
  | .exist => "stylepath-fs-exists($absolute-path)"
  | .pathSeparator => "stylepath-fs-path-separator()"
  | .listFiles => "stylepath-fs-list-files($directory, $glob: '*')"
  | .listDirectories => "stylepath-fs-list-directories($directory, $glob: '*')"
  | .parseFilename => "stylepath-fs-parse-filename($filename)"
  | .info => "stylepath-fs-info($filename)"
  | .contents => "stylepath-fs-read-file($filename)"

/-- The query with a signature. -/
def ofSignature? (t : Text) : Option Query := all.find? fun q => q.signature = t

/-- The name of a failure's path; a failure that names none is about the empty path. -/
def pathOf (e : ReadFailure) : Text :=
  match e with
  | .system e => e.path.getD []
  | _ => []

/-- A failure to read as what it means for a query about a path: errors of the file system are
promised, and so is text that cannot be decoded. -/
def readFailure (path : Text) : ReadFailure → Failure
  | .undecodable f => .promised (.unreadable path (.undecodable f))
  | .system e => .promised (.unreadable (pathOf (.system e)) (.system e))
  | .nulInPath => .read .nulInPath

/-- The directory that a token stands for: the session's binding, or else the text of the token's
value in the map that the stylesheet passes. -/
def registeredDirectory (c : QueryContext) (registered : Option Value) (token : Text) :
    Except Failure (Option Text) :=
  match c.session.bound? token with
  | some p => .ok (some p)
  | none =>
    match registered.bind (Value.get? token) with
    | some v => v.requireString.map some
    | none => .ok none

/-- A path below the one that a token is bound to. -/
def belowToken (c : QueryContext) (registered : Option Value) (id : Value)
    (segments : List Value) : Except Failure Value := do
  let token ← id.requireString
  match ← registeredDirectory c registered token with
  | none => return .error ("No path is registered for " ++ token) none
  | some dir =>
    let parts ← segments.mapM Value.requireString
    return .quoted (Path.absolute c.disk.cwdPath (Path.joinAll dir parts))

/-- Paths joined, in normal form; nothing joined is the dot. -/
def joinPaths : List Text → Text
  | [] => Path.here
  | p :: ps => Path.normalize (Path.joinAll p ps)

/-- The entries of a directory that a pattern describes, each with whether it is a directory. -/
def glob (d : Disk) (dir pattern : Text) : Except ReadFailure (List (Text × Bool)) :=
  (d.glob dir pattern).map fun names =>
    names.map fun n => (n, d.isDirectory (Path.join dir n))

/-- The entries of one kind, unless one of them is not admitted. -/
def admitted (c : QueryContext) (dir : Text) (entries : List Text) : Except Failure Value := do
  for e in entries do
    if !c.permits (Path.join dir e) then throw (.promised (.denied e))
  return .list (entries.map .quoted) .comma

/-- The files or the directories of a directory that a pattern describes. -/
def list (c : QueryContext) (directories : Bool) (dir pattern : Value) :
    Except Failure Value := do
  let dir ← dir.requireString
  let pattern ← pattern.requireString
  c.check dir
  let entries ← (glob c.disk dir pattern).mapError .read
  admitted c dir ((entries.filter fun (_, isDir) => isDir = directories).map (·.1))

/-- A map with text keys. -/
def record (entries : List (Text × Value)) : Value :=
  .map (entries.map fun (k, v) => (.quoted k, v))

/-- The parts of a path. -/
def parts (p : Text) : Value :=
  let (dir, base) := Path.splitLast p
  let (stem, ext) := Path.splitExtension base
  record [("base", .quoted base), ("dir", .quoted dir), ("name", .quoted stem),
    ("ext", .quoted ext), ("is-absolute", .boolean (Path.isAbsolute p))]

/-- A time in nanoseconds as whole milliseconds: the seconds are rounded to a double first, and the
product with a thousand is cut to an integer. -/
def milliseconds (nanoseconds : Int) : Int :=
  let whole : Int := nanoseconds / 1000000000
  let rest : Nat := (nanoseconds % 1000000000).toNat
  let seconds := (Double.ofInt? whole).getD .nan
  let fraction := Double.mul (Double.ofDecimal false 1 (-9)) ((Double.ofInt? rest).getD .nan)
  (Double.mul (Double.add seconds fraction) (.ofRatio false 1000 1)).toInt

/-- A whole number. -/
def wholeNumber (n : Int) : Value := .number (.integer n) []

/-- What is known about a file: when it was changed, what it is, its path without links, and its
size. -/
def facts (names : List Text) (n : Node) : Value :=
  let (modified, size) : Int × Nat := match n with
    | .file bytes modified => (milliseconds modified, bytes.length)
    | _ => (0, 0)
  record [("modification-time", wholeNumber modified), ("creation-time", wholeNumber 0),
    ("is-file", .boolean n.isFile), ("is-directory", .boolean n.isDirectory),
    ("real-path", .quoted (Disk.pathOf names)), ("size", wholeNumber size)]

/-- The text of an argument that the sandbox admits as a path. -/
def admittedPath (c : QueryContext) (v : Value) : Except Failure Text := do
  let p ← v.requireString
  c.check p
  return p

/-- A query with its arguments, before errors become values. -/
def compute (c : QueryContext) (registered : Option Value) :
    Query → List Value → Except Failure Value
  | .absolutePath, id :: segments => belowToken c registered id segments
  | .join, segments => do return .quoted (joinPaths (← segments.mapM Value.requireString))
  | .exist, [p] => do return .boolean (c.disk.present (← admittedPath c p))
  | .pathSeparator, [] => .ok (.quoted ['/'])
  | .listFiles, [dir] => list c false dir (.quoted ['*'])
  | .listFiles, [dir, pattern] => list c false dir pattern
  | .listDirectories, [dir] => list c true dir (.quoted ['*'])
  | .listDirectories, [dir, pattern] => list c true dir pattern
  | .parseFilename, [p] => p.requireString.map parts
  | .info, [p] => do
    let path ← admittedPath c p
    let (names, n) ← (c.disk.lookup path).mapError (readFailure path)
    return facts names n
  | .contents, [p] => do
    let path ← admittedPath c p
    let t ← (c.disk.readText path).mapError (readFailure path)
    return .quoted t
  | _, _ => .error .wrongKind

/-- An outcome in which promised errors have become values. -/
def asValue : Except Failure Value → Except Failure Value
  | .error (.promised e) => .ok (.ofError e)
  | r => r

/-- The answer to a query.  `registered` is the stylesheet's own map of tokens. -/
def answer (c : QueryContext) (registered : Option Value) (q : Query) (args : List Value) :
    Except Failure Value :=
  asValue (compute c registered q args)

/-- The map in an argument; an empty map arrives as another value. -/
def mapArgument : Value → Option Value
  | .map es => some (.map es)
  | _ => none

/-- The answer to a query as stylesheets call it: the query for a path takes the stylesheet's map of
tokens as its first argument. -/
def callDeclared (c : QueryContext) : Query → List Value → Except Failure Value
  | .absolutePath, registered :: id :: segments =>
    answer c (mapArgument registered) .absolutePath (id :: segments)
  | .absolutePath, _ => .error .wrongKind
  | q, args => answer c none q args

end Query

end StyleImport
