/-
Plans that say who has their result.

A resolution yields what it found itself, or what the host's own resolver found.
`Plan.attributed` is a plan that says which of the two along with its result.

* `Plan.map_attributed`, `Task.map_step` — without what it says of the finder such a plan is the
  plan that it was, and so is all that it does;
* `Plan.unhurried` — a plan whose host takes its time;
* `Task.exists_turns_finish` — a task that nobody interrupts.
-/
import StyleImport.Import.Interleaving

namespace StyleImport

/-- Who has found an import. -/
inductive Finder where
  /-- The importer itself. -/
  | importer
  /-- The host's own resolver. -/
  | host
  deriving DecidableEq, Repr

namespace Plan

variable {α β : Type}

/-- A plan that says along with its result whether the host's own resolver had an answer. -/
def attributed : Plan α → Finder → Plan (α × Finder)
  | done a, finder => done (a, finder)
  | fail e, _ => fail e
  | isFile p next, finder => isFile p fun b => (next b).attributed finder
  | lookup n c next, finder => lookup n c fun r => (next r).attributed finder
  | read p next, finder => read p fun o => (next o).attributed finder
  | askHost i p next, finder =>
    askHost i p fun r => (next r).attributed (if r.isSome then .host else finder)
  | mark file next, finder => mark file fun b => (next b).attributed finder
  | register t p next, finder => register t p fun b => (next b).attributed finder
  | note e next, finder => note e (next.attributed finder)
  | pause next, finder => pause (next.attributed finder)

/-- A plan with another result. -/
def map (f : α → β) (p : Plan α) : Plan β := p.bind fun a => done (f a)

theorem map_attributed (p : Plan α) (finder : Finder) : (p.attributed finder).map Prod.fst = p := by
  induction p generalizing finder with
  | done | fail => rfl
  | note e next ih => exact congrArg _ (ih finder)
  | pause next ih => exact congrArg _ (ih finder)
  | askHost i p next ih => exact congrArg _ (funext fun r => ih r _)
  | _ => rename_i ih; exact congrArg _ (funext fun a => ih a finder)

/-- A plan whose host takes its time: others may go first before it learns of the answer. -/
def unhurried : Plan α → Plan α
  | done a => done a
  | fail e => fail e
  | isFile p next => isFile p fun b => (next b).unhurried
  | lookup n c next => lookup n c fun r => (next r).unhurried
  | read p next => read p fun o => (next o).unhurried
  | askHost i p next => askHost i p fun r => pause (next r).unhurried
  | mark file next => mark file fun b => (next b).unhurried
  | register t p next => register t p fun b => (next b).unhurried
  | note e next => note e next.unhurried
  | pause next => pause next.unhurried

theorem map_unhurried (f : α → β) (p : Plan α) : p.unhurried.map f = (p.map f).unhurried := by
  unfold map
  induction p with
  | done | fail => rfl
  | note e next ih => exact congrArg _ ih
  | pause next ih => exact congrArg _ ih
  | askHost i p next ih => exact congrArg _ (funext fun r => congrArg _ (ih r))
  | _ => rename_i ih; exact congrArg _ (funext fun a => ih a)

/-- Nobody notices the difference unless somebody else goes first. -/
theorem run_unhurried {σ : Type} (p : Plan α) (s : Compilation σ) :
    p.unhurried.run s = p.run s := by
  induction p generalizing s with
  | done | fail => rfl
  | isFile p next ih => exact ih _ s
  | lookup n c next ih =>
    simp only [unhurried, run]
    split
    · exact ih _ _
    · rfl
  | read p next ih => exact ih _ _
  | askHost i p next ih =>
    simp only [unhurried, run]
    split
    · exact ih _ _
    · rfl
  | mark file next ih => exact ih _ _
  | register t p next ih => exact ih _ _
  | note e next ih => exact ih _
  | pause next ih => exact ih s

end Plan

/-! ### Tasks with other results -/

namespace Task

variable {σ : Type} {α β : Type}

/-- A task with another result. -/
def map (f : α → β) : Task α → Task β
  | ready plan => .ready (plan.map f)
  | waiting p ticket next => .waiting p ticket fun o => (next o).map f
  | finished r => .finished (r.map f)

theorem map_advance (f : α → β) (p : Plan α) (s : Compilation σ) :
    (p.map f).advance s = ((p.advance s).1.map f, (p.advance s).2) := by
  unfold Plan.map
  induction p generalizing s with
  | done | fail => rfl
  | isFile p next ih => exact ih _ s
  | lookup n c next ih =>
    simp only [Plan.bind, Plan.advance]
    split
    · exact ih _ _
    · rfl
  | read p next ih => rfl
  | askHost i p next ih =>
    simp only [Plan.bind, Plan.advance]
    split
    · exact ih _ _
    · rfl
  | mark file next ih => exact ih _ _
  | register t p next ih => exact ih _ _
  | note e next ih => exact ih _
  | pause next ih => rfl

/-- What a task does has nothing to do with what is made of its result. -/
theorem map_step (f : α → β) (t : Task α) (s : Compilation σ) :
    (t.map f).step s = ((t.step s).1.map f, (t.step s).2) := by
  cases t with
  | ready plan => exact map_advance f plan s
  | waiting p ticket next => exact map_advance f _ _
  | finished r => rfl

/-- Turns of a task, one right after the other. -/
def turns : Nat → Task α → Compilation σ → Task α × Compilation σ
  | 0, t, s => (t, s)
  | n + 1, t, s => turns n (t.step s).1 (t.step s).2

/-- A plan that gives way is over after some turns in a row, with what a run to its end yields. -/
theorem exists_turns_advance (p : Plan α) (s : Compilation σ) :
    ∃ n, turns n (p.advance s).1 (p.advance s).2 = (.finished (p.run s).1, (p.run s).2) := by
  -- `advance` stops at reads and pauses only, so each of them costs one turn.
  induction p generalizing s with
  | done | fail => exact ⟨0, rfl⟩
  | isFile p next ih => exact ih _ s
  | lookup name context next ih =>
    rcases hr : s.lookup name context with ⟨_ | r, s'⟩ <;> simp only [Plan.advance, Plan.run, hr]
    · exact ⟨0, rfl⟩
    · exact ih r s'
  | read p next ih =>
    -- One more turn: the read ends, and the task learns of the outcome.
    obtain ⟨n, hn⟩ := ih (s.readOnce p).1 (s.readOnce p).2
    exact ⟨n + 1, hn⟩
  | askHost identifier prev next ih =>
    rcases hr : s.ask identifier prev with ⟨_ | r, s'⟩ <;> simp only [Plan.advance, Plan.run, hr]
    · exact ⟨0, rfl⟩
    · exact ih r s'
  | mark file next ih => exact ih _ _
  | register token path next ih => exact ih _ _
  | note e next ih => exact ih _
  | pause next ih =>
    obtain ⟨n, hn⟩ := ih s
    exact ⟨n + 1, hn⟩

theorem exists_turns_finish (t : Task α) (s : Compilation σ) :
    ∃ n, turns n t s = (.finished (t.finish s).1, (t.finish s).2) := by
  cases t with
  | ready plan =>
    obtain ⟨n, hn⟩ := exists_turns_advance plan s
    exact ⟨n + 1, hn⟩
  | waiting p ticket next =>
    obtain ⟨n, hn⟩ := exists_turns_advance (next (s.complete p ticket).1)
      ((s.complete p ticket).2.resume p ticket (s.complete p ticket).1)
    exact ⟨n + 1, hn⟩
  | finished r => exact ⟨0, rfl⟩

end Task

end StyleImport
