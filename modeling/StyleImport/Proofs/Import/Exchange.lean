/-
What a plan asks in the course of a run, and what it is told.

`Plan.exchanges` lists the questions of a run with their answers, in order.  Whatever is said of the
order in which an import consults the disk, the reader and the host is said of this list.

* `Plan.run_bind`, `Plan.exchanges_bind` — one plan after another;
* `Plan.LooksOnly` — plans that ask about files and modules only.
-/
import Mathlib.Tactic.Common
import StyleImport.Import.Session

namespace StyleImport

/-- A question that a plan asks, with the answer. -/
inductive Exchange where
  /-- Whether a path leads to a file. -/
  | isFile (path : Text) (answer : Bool)
  /-- The record of a module. -/
  | lookup (name context : Text) (answer : Except Failure (Option ModuleRecord))
  /-- The text of a file. -/
  | read (path : Text) (outcome : ReadOutcome)
  /-- What the host's own resolver makes of an import. -/
  | askHost (identifier prev : Text) (answer : Except Text (Option Resolved))
  /-- Whether a file is imported for the first time. -/
  | mark (file : Text) (first : Bool)
  /-- What a token is bound to. -/
  | register (token path bound : Text)

namespace Exchange

/-- Whether the host's own resolver is asked. -/
def IsAsk : Exchange → Prop
  | askHost .. => True
  | _ => False

/-- Whether a file is read. -/
def IsRead : Exchange → Prop
  | read .. => True
  | _ => False

end Exchange

namespace Plan

variable {σ : Type} {α : Type} {β : Type}

/-- The exchanges of a plan that is run to its end. -/
def exchanges : Plan α → Compilation σ → List Exchange
  | done _, _ | fail _, _ => []
  | isFile p next, s =>
    .isFile p (s.host.isFile s.state p) :: (next (s.host.isFile s.state p)).exchanges s
  | lookup name context next, s =>
    .lookup name context (s.lookup name context).1 ::
      match s.lookup name context with
      | (.ok r, s) => (next r).exchanges s
      | (.error _, _) => []
  | read p next, s => .read p (s.readOnce p).1 :: (next (s.readOnce p).1).exchanges (s.readOnce p).2
  | askHost identifier prev next, s =>
    .askHost identifier prev (s.ask identifier prev).1 ::
      match s.ask identifier prev with
      | (.ok r, s) => (next r).exchanges s
      | (.error _, _) => []
  | mark file next, s =>
    .mark file (s.mark file).1 :: (next (s.mark file).1).exchanges (s.mark file).2
  | register token path next, s =>
    .register token path (s.register token path).1 ::
      (next (s.register token path).1).exchanges (s.register token path).2
  | note e next, s => next.exchanges (s.noteAll [e])
  | pause next, s => next.exchanges s

/-! ### One plan after another -/

theorem run_bind (p : Plan α) (f : α → Plan β) (s : Compilation σ) :
    (p.bind f).run s = match p.run s with
      | (.ok a, s') => (f a).run s'
      | (.error e, s') => (.error e, s') := by
  induction p generalizing s with
  | done | fail => rfl
  | isFile p next ih => exact ih _ s
  | lookup name context next ih =>
    rcases hr : s.lookup name context with ⟨_ | r, s'⟩
    · simp only [bind, run, hr]
    · simp only [bind, run, hr]
      exact ih r s'
  | read p next ih => exact ih _ _
  | askHost identifier prev next ih =>
    rcases hr : s.ask identifier prev with ⟨_ | r, s'⟩
    · simp only [bind, run, hr]
    · simp only [bind, run, hr]
      exact ih r s'
  | mark file next ih => exact ih _ _
  | register token path next ih => exact ih _ _
  | note e next ih => exact ih _
  | pause next ih => exact ih s

theorem exchanges_bind (p : Plan α) (f : α → Plan β) (s : Compilation σ) :
    (p.bind f).exchanges s = p.exchanges s ++ match p.run s with
      | (.ok a, s') => (f a).exchanges s'
      | (.error _, _) => [] := by
  induction p generalizing s with
  | done | fail => rfl
  | isFile p next ih => exact congrArg _ (ih _ s)
  | lookup name context next ih =>
    rcases hr : s.lookup name context with ⟨_ | r, s'⟩
    · simp only [bind, exchanges, run, hr, List.append_nil]
    · simp only [bind, exchanges, run, hr, List.cons_append]
      exact congrArg _ (ih r s')
  | read p next ih => exact congrArg _ (ih _ _)
  | askHost identifier prev next ih =>
    rcases hr : s.ask identifier prev with ⟨_ | r, s'⟩
    · simp only [bind, exchanges, run, hr, List.append_nil]
    · simp only [bind, exchanges, run, hr, List.cons_append]
      exact congrArg _ (ih r s')
  | mark file next ih => exact congrArg _ (ih _ _)
  | register token path next ih => exact congrArg _ (ih _ _)
  | note e next ih => exact ih _
  | pause next ih => exact ih s

theorem run_bind_of_ok {p : Plan α} {s s' : Compilation σ} {a : α} (h : p.run s = (.ok a, s'))
    (f : α → Plan β) : (p.bind f).run s = (f a).run s' := by
  rw [run_bind, h]

theorem exchanges_bind_of_ok {p : Plan α} {s s' : Compilation σ} {a : α}
    (h : p.run s = (.ok a, s')) (f : α → Plan β) :
    (p.bind f).exchanges s = p.exchanges s ++ (f a).exchanges s' := by
  rw [exchanges_bind, h]

theorem run_bind_of_error {p : Plan α} {s s' : Compilation σ} {e : Failure}
    (h : p.run s = (.error e, s')) (f : α → Plan β) : (p.bind f).run s = (.error e, s') := by
  rw [run_bind, h]

theorem exchanges_bind_of_error {p : Plan α} {s s' : Compilation σ} {e : Failure}
    (h : p.run s = (.error e, s')) (f : α → Plan β) :
    (p.bind f).exchanges s = p.exchanges s := by
  rw [exchanges_bind, h, List.append_nil]

/-! ### Plans that only look -/

/-- A plan that asks about files and modules only. -/
def LooksOnly : Plan α → Prop
  | done _ | fail _ => True
  | isFile _ next => ∀ b, (next b).LooksOnly
  | lookup _ _ next => ∀ r, (next r).LooksOnly
  | note _ next => next.LooksOnly
  | _ => False

theorem LooksOnly.bind {p : Plan α} {f : α → Plan β} (hp : p.LooksOnly)
    (hf : ∀ a, (f a).LooksOnly) : (p.bind f).LooksOnly := by
  induction p with
  | done a => exact hf a
  | fail e => trivial
  | isFile p next ih => exact fun b => ih b (hp b)
  | lookup name context next ih => exact fun r => ih r (hp r)
  | note e next ih => exact ih hp
  | _ => exact hp.elim

/-- A plan that only looks reads nothing and does not ask the host. -/
theorem LooksOnly.exchanges {p : Plan α} (hp : p.LooksOnly) (s : Compilation σ) :
    ∀ x ∈ p.exchanges s, ¬ x.IsAsk ∧ ¬ x.IsRead := by
  induction p generalizing s with
  | done | fail => simp [Plan.exchanges]
  | isFile p next ih =>
    intro x hx
    rcases List.mem_cons.mp hx with rfl | hx
    · exact ⟨id, id⟩
    · exact ih _ (hp _) s x hx
  | lookup name context next ih =>
    intro x hx
    rcases hr : s.lookup name context with ⟨_ | r, s'⟩
    · simp only [Plan.exchanges, hr, List.mem_singleton] at hx
      exact hx ▸ ⟨id, id⟩
    · simp only [Plan.exchanges, hr, List.mem_cons] at hx
      rcases hx with rfl | hx
      · exact ⟨id, id⟩
      · exact ih r (hp r) s' x hx
  | note e next ih => exact ih hp _
  | _ => exact hp.elim

end Plan

end StyleImport
