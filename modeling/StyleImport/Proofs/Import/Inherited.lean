/-
What holds of the plan of every import.

All imports from modules and directories are put together from the same few pieces: looks at the
disk and at the registry, reads whose text is the result, and questions to the host whose answer is
the result.

* `Importer.Inherited` — what a property of plans needs to do with these pieces;
* `Importer.Inherited.resolveModule` — to hold of all such imports.
-/
import StyleImport.Proofs.Import.Locate
import StyleImport.Proofs.Import.Search

namespace StyleImport

namespace Importer

/-- A property of plans that is handed on from the ways in which an import may go on to the import
itself. -/
structure Inherited (i : Importer) (P : Plan Resolved → Prop) : Prop where
  fail : ∀ e, P (.fail e)
  isFile : ∀ {path next}, (∀ b, P (next b)) → P (.isFile path next)
  lookup : ∀ {name context next}, (∀ r, P (next r)) → P (.lookup name context next)
  /-- A text that was read is the text of the import. -/
  read : ∀ {path next}, (∀ t, ∃ event r, next (.ok t) = .note event (i.importOnce r)) →
    (∀ e, P (next (.error e))) → P (.read path next)
  /-- An answer of the host is the result. -/
  askHost : ∀ {identifier prev next},
    (∀ r, ∃ event, next (some r) = .note event (.done r)) → P (next none) →
      P (.askHost identifier prev next)
  note : ∀ {event next}, P next → P (.note event next)
  pause : ∀ {next}, P next → P (.pause next)

namespace Inherited

variable {i : Importer} {P : Plan Resolved → Prop}

theorem bind_of_looksOnly (h : i.Inherited P) {α : Type} {p : Plan α} {f : α → Plan Resolved}
    (hp : p.LooksOnly) (hf : ∀ a, P (f a)) : P (p.bind f) := by
  induction p with
  | done a => exact hf a
  | fail e => exact h.fail e
  | isFile path next ih => exact h.isFile fun b => ih b (hp b)
  | lookup name context next ih => exact h.lookup fun r => ih r (hp r)
  | note event next ih => exact h.note (ih hp)
  | _ => exact hp.elim

/-- A search among candidates that is over with the first text. -/
theorem bind_readFirst (h : i.Inherited P) {f : Option Resolved × List Text → Plan Resolved}
    (hfound : ∀ r probed, f (some r, probed) = i.importOnce r)
    (hnone : ∀ probed, P (f (none, probed))) (name : Text) (probed paths : List Text) :
    P ((readFirst name probed paths).bind f) := by
  induction paths generalizing probed with
  | nil => exact hnone probed
  | cons path paths ih =>
    refine h.isFile fun isFile => ?_
    cases isFile with
    | false => exact h.pause (ih _)
    | true =>
      rw [readCandidate_eq]
      refine h.pause (h.read (fun t => ⟨foundEvent name path, { contents := t, file := path }, ?_⟩)
        fun e => ?_)
      · rw [← hfound _ (addProbed probed path)]
        rfl
      · cases hmissing : e.isMissing with
        | true =>
          simp only [Search.ofRead, hmissing, if_true, Plan.bind]
          exact ih _
        | false =>
          simp only [Search.ofRead, hmissing, Bool.false_eq_true, if_false, Plan.bind]
          exact h.fail _

theorem orHost (h : i.Inherited P) (identifier prev : Text) {onMiss : Plan Resolved}
    (honMiss : P onMiss) : P (orHost identifier prev id onMiss) :=
  h.askHost (fun _ => ⟨_, rfl⟩) honMiss

theorem resolveRelative (h : i.Inherited P) (l : Located) (prev : Text) (withIncludes : Bool)
    (probed : List Text) : P (i.resolveRelative l prev withIncludes probed) :=
  h.bind_readFirst (fun _ _ => rfl) (fun _ => h.orHost _ _ (h.fail _)) _ _ _

theorem resolveLocated (h : i.Inherited P) (l : Located) (prev : Text) :
    P (i.resolveLocated l prev) := by
  unfold Importer.resolveLocated
  split
  · exact h.resolveRelative l prev true []
  · split
    · exact h.bind_readFirst (fun _ _ => rfl)
        (fun probed => h.note (h.orHost _ _ (h.resolveRelative l prev false probed))) _ _ _
    · split
      · exact h.resolveRelative l prev true []
      · exact h.orHost _ _ (h.fail _)

theorem resolveModule (h : i.Inherited P) (identifier prev : Text) :
    P (i.resolveModule identifier prev) :=
  h.bind_of_looksOnly (Located.looksOnly_locate _ _ _) fun l => h.resolveLocated l prev

end Inherited

end Importer

end StyleImport
