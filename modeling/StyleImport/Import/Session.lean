/-
What the imports of one compilation share.

A session remembers which files were read, which were imported and which tokens are bound to which
path.  `Plan.run` runs a plan to its end on a session; `Plan.step` takes its next step only, for
plans that take turns.
-/
import StyleImport.Import.Plan
import StyleImport.Import.ReadOnce
import StyleImport.Import.Registration
import StyleImport.Path.Lexical

namespace StyleImport

/-- What the imports of one compilation share. -/
structure Session where
  /-- The reads. -/
  desk : ReadDesk := {}
  /-- The names of the files imported so far, in canonical form. -/
  imported : List Text := []
  /-- The paths that tokens are bound to, in the order in which they were bound. -/
  bindings : List (Text × Text) := []
  deriving Repr

namespace Session

/-- The form of a file's name by which imports of it are recognized: registrations keep theirs. -/
def importKey (cwd file : Text) : Text :=
  if Registration.scheme.isPrefixOf file then file else Path.absolute cwd file

/-- A file is marked as imported; whether this is the first time, and the session afterwards. -/
def mark (cwd file : Text) (s : Session) : Bool × Session :=
  let key := importKey cwd file
  if s.imported.contains key then (false, s)
  else (true, { s with imported := s.imported ++ [key] })

/-- A token is bound to a path, unless it is bound already; the path it is bound to now, the session
afterwards, and what happened. -/
def register (token path : Text) (s : Session) : Text × Session × List Event :=
  match Entries.get? token s.bindings with
  | some bound =>
    let ignored := Event.detail .session
      ("[fs:register] " ++ token ++ " already bound to " ++ bound ++ ", ignoring " ++ path)
    (bound, s, if bound = path then [] else [ignored])
  | none =>
    (path, { s with bindings := Entries.put token path s.bindings },
      [.detail .session ("[fs:register] " ++ token ++ " -> " ++ path)])

/-- The path that a token is bound to. -/
def bound? (s : Session) (token : Text) : Option Text := Entries.get? token s.bindings

end Session

/-- A compilation under way: a session and a host with its state, and the working directory that
both see. -/
structure Compilation (σ : Type) where
  /-- The working directory. -/
  cwd : Text
  /-- What answers questions. -/
  host : Host σ
  /-- The session. -/
  session : Session
  /-- The host's state. -/
  state : σ

namespace Compilation

variable {σ : Type}

/-- The compilation after events. -/
def noteAll (s : Compilation σ) (events : List Event) : Compilation σ :=
  { s with state := events.foldl (fun st e => s.host.note e st) s.state }

/-- The key of a path. -/
def key (s : Compilation σ) (path : Text) : Text := Path.absolute s.cwd path

/-- Someone comes to read a path: the ticket of the read that they join, whether they start it, and
the compilation afterwards. -/
def arrive (s : Compilation σ) (path : Text) : Nat × Bool × Compilation σ :=
  let (ticket, isNew, desk) := s.session.desk.arrive (s.key path)
  let s := { s with session := { s.session with desk } }
  (ticket, isNew,
    if isNew then s.noteAll [.detail .session ("[import:read] " ++ s.key path)] else s)

/-- The read of a ticket is over, if it was not over before: its outcome and the compilation
afterwards. -/
def complete (s : Compilation σ) (path : Text) (ticket : Nat) : ReadOutcome × Compilation σ :=
  match s.session.desk.outcome? ticket with
  | some outcome => (outcome, s)
  | none =>
    let (outcome, state) := s.host.read (s.key path) s.state
    let desk := s.session.desk.complete ticket outcome
    (outcome, { s with state, session := { s.session with desk } })

/-- Someone learns of the outcome of the read that they joined. -/
def resume (s : Compilation σ) (path : Text) (ticket : Nat) (outcome : ReadOutcome) :
    Compilation σ :=
  { s with session :=
      { s.session with desk := s.session.desk.resume (s.key path) ticket outcome } }

/-- Reading a path from beginning to end. -/
def readOnce (s : Compilation σ) (path : Text) : ReadOutcome × Compilation σ :=
  let (ticket, _, s) := s.arrive path
  let (outcome, s) := s.complete path ticket
  (outcome, s.resume path ticket outcome)

/-- The record of a module. -/
def lookup (s : Compilation σ) (name context : Text) :
    Except Failure (Option ModuleRecord) × Compilation σ :=
  let (answer, state) := s.host.lookup name context s.state
  (answer, { s with state })

/-- The answer of the host's own resolver. -/
def ask (s : Compilation σ) (identifier prev : Text) :
    Except Text (Option Resolved) × Compilation σ :=
  let (answer, state) := s.host.ask identifier prev s.state
  (answer, { s with state })

/-- A file is marked as imported. -/
def mark (s : Compilation σ) (file : Text) : Bool × Compilation σ :=
  let (first, session) := s.session.mark s.cwd file
  (first, { s with session })

/-- A token is bound to a path, unless it is bound already. -/
def register (s : Compilation σ) (token path : Text) : Text × Compilation σ :=
  let (bound, session, events) := s.session.register token path
  (bound, { s with session }.noteAll events)

end Compilation

/-- A plan run to its end. -/
def Plan.run {σ α : Type} : Plan α → Compilation σ → Except Failure α × Compilation σ
  | done a, s => (.ok a, s)
  | fail e, s => (.error e, s)
  | isFile p next, s => (next (s.host.isFile s.state p)).run s
  | lookup name context next, s =>
    match s.lookup name context with
    | (.ok r, s) => (next r).run s
    | (.error e, s) => (.error e, s)
  | read p next, s =>
    let (outcome, s) := s.readOnce p
    (next outcome).run s
  | askHost identifier prev next, s =>
    match s.ask identifier prev with
    | (.ok r, s) => (next r).run s
    | (.error message, s) => (.error (.host message), s)
  | mark file next, s =>
    let (first, s) := s.mark file
    (next first).run s
  | register token path next, s =>
    let (bound, s) := s.register token path
    (next bound).run s
  | note e next, s => next.run (s.noteAll [e])
  | pause next, s => next.run s

end StyleImport
