/-
Plans: what a resolution does, as data.

A resolution asks its surroundings questions, one at a time, and goes on with the answers.  `Plan`
is the tree of these questions, so that one definition of a resolution can be run against any host,
to the end or interleaved with others, and every fact about it is an induction on the tree.

* `Plan` — the tree, with its monad;
* `Host` — what answers the questions that the session does not answer itself;
* `Resolved` — what a resolution yields.
-/
import StyleImport.Error
import StyleImport.Journal.Event
import StyleImport.Module.Record

namespace StyleImport

/-- What an import yields: its contents and the name of the file that they are. -/
structure Resolved where
  /-- The contents of the file. -/
  contents : Text
  /-- The path of the file. -/
  file : Text
  /-- Whether the file was imported before and the settings ask to mark that. -/
  alreadyImported : Bool := false
  deriving DecidableEq, Repr

/-- What a resolution does next. -/
inductive Plan (α : Type) where
  /-- It has a result. -/
  | done (a : α)
  /-- It fails. -/
  | fail (e : Failure)
  /-- It asks whether a path leads to a file. -/
  | isFile (path : Text) (next : Bool → Plan α)
  /-- It asks for the record of a module, seen from a place. -/
  | lookup (name context : Text) (next : Option ModuleRecord → Plan α)
  /-- It reads a file, once for all who ask. -/
  | read (path : Text) (next : Except ReadFailure Text → Plan α)
  /-- It hands an import to the host's own resolver. -/
  | askHost (identifier prev : Text) (next : Option Resolved → Plan α)
  /-- It marks a file as imported and asks whether this is the first time. -/
  | mark (file : Text) (next : Bool → Plan α)
  /-- It binds a token to a path, unless it is bound, and asks what it is bound to now. -/
  | register (token path : Text) (next : Text → Plan α)
  /-- It has something for the journal. -/
  | note (event : Event) (next : Plan α)
  /-- It lets others go first. -/
  | pause (next : Plan α)

namespace Plan

variable {α : Type} {β : Type}

/-- One plan and then the one that its result asks for. -/
def bind : Plan α → (α → Plan β) → Plan β
  | done a, f => f a
  | fail e, _ => fail e
  | isFile p next, f => isFile p fun b => (next b).bind f
  | lookup n c next, f => lookup n c fun r => (next r).bind f
  | read p next, f => read p fun t => (next t).bind f
  | askHost i p next, f => askHost i p fun r => (next r).bind f
  | mark p next, f => mark p fun b => (next b).bind f
  | register t p next, f => register t p fun b => (next b).bind f
  | note e next, f => note e (next.bind f)
  | pause next, f => pause (next.bind f)

instance : Monad Plan where
  pure := done
  bind := bind

@[simp] theorem pure_eq (a : α) : (pure a : Plan α) = done a := rfl

@[simp] theorem bind_eq (p : Plan α) (f : α → Plan β) : (p >>= f) = p.bind f := rfl

/-- Doing nothing more after a plan changes nothing. -/
theorem bind_done (p : Plan α) : p.bind done = p := by
  induction p with
  | done | fail => rfl
  | note e next ih => simp [bind, ih]
  | pause next ih => simp [bind, ih]
  | _ => rename_i ih; simp [bind, ih]

/-- Plans one after the other may be grouped in any way. -/
theorem bind_assoc {γ : Type} (p : Plan α) (f : α → Plan β) (g : β → Plan γ) :
    (p.bind f).bind g = p.bind fun a => (f a).bind g := by
  induction p with
  | done | fail => rfl
  | note e next ih => simp [bind, ih]
  | pause next ih => simp [bind, ih]
  | _ => rename_i ih; simp [bind, ih]

end Plan

/-- What answers the questions of plans, in a state of its own. -/
structure Host (σ : Type) where
  /-- Whether a path leads to a file. -/
  isFile : σ → Text → Bool
  /-- The record of a module, seen from a place. -/
  lookup : Text → Text → σ → Except Failure (Option ModuleRecord) × σ
  /-- The text of a file. -/
  read : Text → σ → Except ReadFailure Text × σ
  /-- The answer of the host's own resolver, or the message of its failure. -/
  ask : Text → Text → σ → Except Text (Option Resolved) × σ
  /-- The state after something for the journal. -/
  note : Event → σ → σ

end StyleImport
