/-
Plans that take turns.

Several plans run on one session.  A schedule says whose turn it is; on its turn a plan goes on
until it lets others go first, joins a read or is over.  Whoever joined a read learns of the outcome
on the next turn; until then others may come for the same file and join the read too.

* `Plan.advance` — a plan run until it gives way;
* `Task.step` — one turn of one plan;
* `Task.runAll` — plans run along a schedule and then to their ends.
-/
import StyleImport.Import.Session

namespace StyleImport

/-- A plan that takes turns. -/
inductive Task (α : Type) where
  /-- It has this plan left. -/
  | ready (plan : Plan α)
  /-- It joined a read and waits for the outcome. -/
  | waiting (path : Text) (ticket : Nat) (next : ReadOutcome → Plan α)
  /-- It is over. -/
  | finished (result : Except Failure α)

variable {σ : Type} {α : Type}

/-- A plan run until it lets others go first, joins a read or is over. -/
def Plan.advance : Plan α → Compilation σ → Task α × Compilation σ
  | done a, s => (.finished (.ok a), s)
  | fail e, s => (.finished (.error e), s)
  | isFile p next, s => (next (s.host.isFile s.state p)).advance s
  | lookup name context next, s =>
    match s.lookup name context with
    | (.ok r, s) => (next r).advance s
    | (.error e, s) => (.finished (.error e), s)
  | read p next, s =>
    let (ticket, _, s) := s.arrive p
    (.waiting p ticket next, s)
  | askHost identifier prev next, s =>
    match s.ask identifier prev with
    | (.ok r, s) => (next r).advance s
    | (.error message, s) => (.finished (.error (.host message)), s)
  | mark file next, s =>
    let (first, s) := s.mark file
    (next first).advance s
  | register token path next, s =>
    let (bound, s) := s.register token path
    (next bound).advance s
  | note e next, s => next.advance (s.noteAll [e])
  | pause next, s => (.ready next, s)

namespace Task

/-- One turn of a task. -/
def step (s : Compilation σ) : Task α → Task α × Compilation σ
  | ready plan => plan.advance s
  | waiting p ticket next =>
    let (outcome, s) := s.complete p ticket
    (next outcome).advance (s.resume p ticket outcome)
  | finished r => (finished r, s)

/-- All the turns that a task has left. -/
def finish (s : Compilation σ) : Task α → Except Failure α × Compilation σ
  | ready plan => plan.run s
  | waiting p ticket next =>
    let (outcome, s) := s.complete p ticket
    (next outcome).run (s.resume p ticket outcome)
  | finished r => (r, s)

/-- A turn of the task at a position; no task there is no turn. -/
def stepAt (tasks : List (Task α)) (s : Compilation σ) (position : Nat) :
    List (Task α) × Compilation σ :=
  match tasks[position]? with
  | none => (tasks, s)
  | some task =>
    let (task, s) := task.step s
    (tasks.set position task, s)

/-- Tasks run along a schedule. -/
def runSchedule (tasks : List (Task α)) (s : Compilation σ) (schedule : List Nat) :
    List (Task α) × Compilation σ :=
  schedule.foldl (fun (tasks, s) position => stepAt tasks s position) (tasks, s)

/-- Tasks finished one after the other. -/
def finishAll (s : Compilation σ) : List (Task α) → List (Except Failure α) × Compilation σ
  | [] => ([], s)
  | task :: tasks =>
    let (result, s) := task.finish s
    let (results, s) := finishAll s tasks
    (result :: results, s)

/-- Plans run along a schedule and then, one after the other, to their ends. -/
def runAll (plans : List (Plan α)) (schedule : List Nat) (s : Compilation σ) :
    List (Except Failure α) × Compilation σ :=
  let (tasks, s) := runSchedule (plans.map ready) s schedule
  finishAll s tasks

/-- The schedule in which everyone has a turn, `rounds` times over. -/
def inTurns (tasks rounds : Nat) : List Nat :=
  (List.replicate rounds (List.range tasks)).flatten

end Task

end StyleImport
