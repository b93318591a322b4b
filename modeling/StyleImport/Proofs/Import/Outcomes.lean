/-
How imports end.

On a disk that stays as it is, with the modules that the settings declare and the installed ones,
and with nobody else to ask, an import ends with a result or with one of four promised errors,
unless the lookup of its module breaks off.

* `Importer.Outcome` — how an import can end;
* `Plan.Ends` — the ends of a plan, whatever others do in between;
* `Importer.ends_resolve` — those of an import.
-/
import StyleImport.Proofs.Import.Search
import StyleImport.Proofs.Module.Failures

namespace StyleImport

/-! ### Ends -/

/-- The names of modules that an identifier is looked up by: the one in front of it and, if that
has a scope, the scope. -/
inductive ModuleName.LookedUp (identifier : Text) : Text → Prop
  | front {name path : Text} : split identifier = some (name, path) → LookedUp identifier name
  | scope {name path : Text} : split identifier = some (name, path) → hasScope name = true →
    LookedUp identifier (widen name path).1

/-- How an import on a disk can end. -/
inductive Importer.Outcome (i : Importer) (d : Disk) (identifier prev : Text) :
    Except Failure Resolved → Prop
  /-- There is a result. -/
  | found (r : Resolved) : Outcome i d identifier prev (.ok r)
  /-- The identifier has no recognizable shape. -/
  | unrecognized : ModuleName.split identifier = none →
    Outcome i d identifier prev (.error (.promised (.unrecognized identifier)))
  /-- Nothing is found. -/
  | notFound (tried : List Text) :
    Outcome i d identifier prev (.error (.promised (.notFound identifier tried prev)))
  /-- The module has no stylesheet directory, and no file asks for the import. -/
  | noStylesheetDir {r : ModuleRecord} : r.stylesheetDir = none → d.isFile prev = false →
    Outcome i d identifier prev (.error (.promised (missingDir r)))
  /-- A file is there and cannot be read. -/
  | unreadable (path : Text) (e : ReadFailure) :
    Outcome i d identifier prev (.error (.promised (.unreadable path e)))
  /-- The lookup of a module that is not declared breaks off. -/
  | brokenOff {name : Text} {e : Failure} : Registration.token? identifier = none →
    (Uri.isRelative identifier || Path.isAbsolute identifier) = false →
    ModuleName.LookedUp identifier name → (∀ r ∈ i.settings.moduleRecords, r.name ≠ name) →
    Registry.Breaks d none name (if d.isFile prev then prev else i.settings.root) e →
    Outcome i d identifier prev (.error e)

namespace Plan

variable {α β : Type} {d : Disk} {declared : List (Text × ModuleRecord)}

/-- Whether all ends of a plan are of a kind, on a disk that stays as it is and with nobody else to
ask, whatever others read, mark and register in between. -/
def Ends (d : Disk) (declared : List (Text × ModuleRecord)) (Q : Except Failure α → Prop) :
    Plan α → Prop
  | done a => Q (.ok a)
  | fail e => Q (.error e)
  | isFile p next => (next (d.isFile p)).Ends d declared Q
  | lookup name context next =>
    (∀ e, Entries.get? name declared = none → Registry.Breaks d none name context e →
      Q (.error e)) ∧ ∀ r, (next r).Ends d declared Q
  | read p next => ¬ Text.HasNul (Path.absolute d.cwdPath p) ∧
    ∀ o, o ≠ .error .nulInPath → (next o).Ends d declared Q
  | askHost _ _ next => (next none).Ends d declared Q
  | mark _ next => ∀ first, (next first).Ends d declared Q
  | register _ _ next => ∀ bound, (next bound).Ends d declared Q
  | note _ next => next.Ends d declared Q
  | pause next => next.Ends d declared Q

theorem Ends.bind {Q : Except Failure α → Prop} {R : Except Failure β → Prop} {p : Plan α}
    {f : α → Plan β} (hp : p.Ends d declared Q) (hf : ∀ a, Q (.ok a) → (f a).Ends d declared R)
    (hfail : ∀ e, Q (.error e) → R (.error e)) : (p.bind f).Ends d declared R := by
  induction p with
  | done a => exact hf a hp
  | fail e => exact hfail e hp
  | isFile p next ih => exact ih _ hp
  | lookup name context next ih => exact ⟨fun e hnone he => hfail e (hp.1 e hnone he),
      fun r => ih r (hp.2 r)⟩
  | read p next ih => exact ⟨hp.1, fun o ho => ih o (hp.2 o ho)⟩
  | askHost identifier prev next ih => exact ih _ hp
  | mark file next ih => exact fun first => ih first (hp first)
  | register token path next ih => exact fun bound => ih bound (hp bound)
  | note e next ih => exact ih hp
  | pause next ih => exact ih hp

end Plan

/-! ### The ends of imports -/

namespace Importer

variable {d : Disk} {declared : List (Text × ModuleRecord)} {i : Importer}

/-- Searching fails only at a file that cannot be read. -/
theorem ends_readFirst {Q : Except Failure (Option Resolved × List Text) → Prop} (name : Text)
    {paths : List Text} (hpaths : ∀ p ∈ paths, Path.absolute d.cwdPath p = p)
    (hok : ∀ x, Q (.ok x)) (hunreadable : ∀ p e, Q (.error (.promised (.unreadable p e))))
    (probed : List Text) : (readFirst name probed paths).Ends d declared Q := by
  induction paths generalizing probed with
  | nil => exact hok _
  | cons p ps ih =>
    have hrest := ih (fun q hq => hpaths q (List.mem_cons_of_mem p hq)) (addProbed probed p)
    rw [readFirst, Plan.Ends]
    cases hfile : d.isFile p with
    | false => exact hrest
    | true =>
      -- The path of a file can be read from, so no character in it is in the way.
      have hnul : ¬ Text.HasNul (Path.absolute d.cwdPath p) := by
        rw [hpaths p List.mem_cons_self]
        exact Disk.not_hasNul_of_isFile hfile
      refine ⟨hnul, ?_⟩
      rintro ((e | f | _) | t) ho
      · dsimp only
        split
        · exact hrest
        · exact hunreadable p _
      · exact hunreadable p _
      · exact absurd rfl ho
      · exact hok _

theorem ends_importOnce {Q : Except Failure Resolved → Prop} (hok : ∀ r, Q (.ok r))
    (r : Resolved) : (i.importOnce r).Ends d declared Q := by
  intro first
  dsimp only
  split <;> exact hok _

variable {identifier prev : Text}

/-- A search among candidates, and what is made of its result. -/
theorem ends_searched (hcwd : i.cwd = d.cwdPath) (name : Text) (locations probed : List Text)
    {next : Option Resolved × List Text → Plan Resolved}
    (hhit : ∀ r tried, next (some r, tried) = i.importOnce r)
    (hmiss : ∀ tried, (next (none, tried)).Ends d declared (i.Outcome d identifier prev)) :
    ((readFirst name probed (i.candidates name locations)).bind next).Ends d declared
      (i.Outcome d identifier prev) := by
  have hkeys : ∀ p ∈ i.candidates name locations, Path.absolute d.cwdPath p = p := by
    rw [← hcwd]
    exact fun p => absolute_of_mem_candidates (hcwd ▸ rfl)
  let Q : Except Failure (Option Resolved × List Text) → Prop
    | .ok _ => True
    | .error e => i.Outcome d identifier prev (.error e)
  refine Plan.Ends.bind (Q := Q) (ends_readFirst name hkeys (fun _ => trivial) .unreadable probed)
    ?_ fun e he => he
  rintro ⟨_ | r, tried⟩ -
  · exact hmiss tried
  · rw [hhit]
    exact ends_importOnce .found r

theorem ends_resolveRelative (hcwd : i.cwd = d.cwdPath) (l : Located) (withIncludes : Bool)
    (probed : List Text) :
    (i.resolveRelative l prev withIncludes probed).Ends d declared
      (i.Outcome d l.identifier prev) :=
  ends_searched hcwd _ _ _ (fun _ _ => rfl) fun tried => Outcome.notFound tried

theorem ends_resolveInModule (hcwd : i.cwd = d.cwdPath) (l : Located) (dir : Text) :
    (i.resolveInModule l prev dir).Ends d declared (i.Outcome d l.identifier prev) :=
  ends_searched hcwd _ _ _ (fun _ _ => rfl) fun tried => ends_resolveRelative hcwd l false tried

theorem ends_resolveLocated (hcwd : i.cwd = d.cwdPath) {l : Located}
    (hreal : l.isRealFile = d.isFile prev) :
    (i.resolveLocated l prev).Ends d declared (i.Outcome d l.identifier prev) := by
  unfold resolveLocated
  split
  · exact ends_resolveRelative hcwd l true []
  · split
    · exact ends_resolveInModule hcwd l _
    · rename_i hdir
      split
      · exact ends_resolveRelative hcwd l true []
      · rename_i hfile
        exact Outcome.noStylesheetDir hdir (by simpa [hreal] using hfile)

/-- Finding the module of an identifier ends early if the identifier has no recognizable shape or a
lookup breaks off. -/
theorem ends_locate (hplain : Registration.token? identifier = none)
    (hdeclared : ∀ name, Entries.get? name declared = none →
      ∀ r ∈ i.settings.moduleRecords, r.name ≠ name) :
    (Located.locate i.settings.root identifier prev).Ends d declared fun result =>
      match result with
      | .ok l => l.identifier = identifier ∧ l.isRealFile = d.isFile prev
      | .error e => i.Outcome d identifier prev (.error e) := by
  set context := if d.isFile prev then prev else i.settings.root
  unfold Located.locate Plan.Ends
  dsimp only
  split
  · exact ⟨rfl, rfl⟩
  · rename_i hpath
    have hbroken {name : Text} (hname : ModuleName.LookedUp identifier name) (e : Failure)
        (hnone : Entries.get? name declared = none)
        (he : Registry.Breaks d none name context e) :
        i.Outcome d identifier prev (.error e) :=
      .brokenOff hplain (by simpa using hpath) hname (hdeclared name hnone) he
    split
    · rename_i hsplit
      exact Outcome.unrecognized hsplit
    · rename_i name path hsplit
      let Q : Except Failure (Text × Text × Option ModuleRecord) → Prop
        | .ok _ => True
        | .error e => i.Outcome d identifier prev (.error e)
      refine Plan.Ends.bind (Q := Q) ?_ ?_ fun e he => he
      · -- The scope is looked up only if the name in front is unknown.
        refine ⟨hbroken (.front hsplit), ?_⟩
        rintro (_ | r)
        · dsimp only
          split
          · rename_i hscope
            exact ⟨hbroken (.scope hsplit hscope), fun _ => trivial⟩
          · trivial
        · trivial
      · rintro ⟨name', path', _ | r⟩ - <;> exact ⟨rfl, rfl⟩

theorem ends_resolveToken (token : Text) :
    (i.resolveToken token prev).Ends d declared (i.Outcome d identifier prev) := by
  unfold resolveToken
  split
  · exact fun bound => ends_importOnce .found _
  · exact fun bound => ends_importOnce .found _

/-- An import ends as it should, whatever others read, mark and register in between. -/
theorem ends_resolve (hcwd : i.cwd = d.cwdPath)
    (hdeclared : ∀ name, Entries.get? name declared = none →
      ∀ r ∈ i.settings.moduleRecords, r.name ≠ name) (identifier prev : Text) :
    (i.resolve identifier prev).Ends d declared (i.Outcome d identifier prev) := by
  unfold resolve
  split
  · exact ends_resolveToken _
  · rename_i hplain
    refine Plan.Ends.bind (Q := i.Outcome d identifier prev) ?_ (fun r _ => Outcome.found r)
      fun e he => he
    refine Plan.Ends.bind (ends_locate hplain hdeclared) ?_ fun e he => he
    rintro l ⟨rfl, hreal⟩
    exact ends_resolveLocated hcwd hreal

end Importer

end StyleImport
