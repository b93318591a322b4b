/-
Who is asked for an import, in which order, and what comes of it.

An import from a module or a directory consults the disk, the reader and the host's own resolver.
`Importer.Route` says which exchanges are possible and what result they lead to: the phases with
their searches, the questions to the host after each search that came to nothing, and the errors at
the end.

* `Importer.route_resolveLocated` — every run takes such a route, on any host and any session;
* `Importer.resolveModule_routes` — so the host is asked about the import as it was given, is asked
  no more once a candidate was read or could not be read, and a module without a stylesheet
  directory is an error only after the host had no answer.
-/
import StyleImport.Proofs.Import.Locate
import StyleImport.Proofs.Import.Search

namespace StyleImport

namespace Importer

/-- The result of an import that found a file. -/
def marked (i : Importer) (path contents : Text) (first : Bool) : Resolved :=
  { contents, file := path, alreadyImported := i.settings.enableImportOnce && !first }

/-- The result after the host's own resolver answered; without an answer it is `otherwise`. -/
def answered (otherwise : Except Failure Resolved) :
    Except Text (Option Resolved) → Except Failure Resolved
  | .ok (some r) => .ok r
  | .ok none => otherwise
  | .error message => .error (.host message)

/-- The exchanges and the result of an identifier that is looked up as a path, after the paths
`probed` were tried in vain. -/
def RelativeRoute (i : Importer) (l : Located) (prev : Text) (withIncludes : Bool)
    (probed : List Text) (log : List Exchange) (result : Except Failure Resolved) : Prop :=
  ∃ phase found, Searched (i.relativeCandidates l withIncludes) phase found ∧
    match found with
    | .hit path contents =>
      ∃ first, log = phase ++ [.mark path first] ∧ result = .ok (i.marked path contents first)
    | .broken path e => log = phase ∧ result = .error (readError path e)
    | .miss =>
      ∃ answer, log = phase ++ [.askHost l.identifier prev answer] ∧
        result = answered (.error (.promised (.notFound l.identifier
          ((i.relativeCandidates l withIncludes).foldl addProbed probed) prev))) answer

/-- The exchanges and the result of an identifier whose module keeps its stylesheets in `dir`: only
if there is no such file and the host has no answer is it looked up as a path. -/
def ModuleRoute (i : Importer) (l : Located) (prev dir : Text) (log : List Exchange)
    (result : Except Failure Resolved) : Prop :=
  ∃ phase found,
    Searched (i.moduleCandidates dir (l.moduleName.getD []) l.relativePath) phase found ∧
    match found with
    | .hit path contents =>
      ∃ first, log = phase ++ [.mark path first] ∧ result = .ok (i.marked path contents first)
    | .broken path e => log = phase ∧ result = .error (readError path e)
    | .miss =>
      ∃ answer more, log = phase ++ .askHost l.identifier prev answer :: more ∧
        match answer with
        | .ok none =>
          i.RelativeRoute l prev false
            ((i.moduleCandidates dir (l.moduleName.getD []) l.relativePath).foldl addProbed [])
            more result
        | .ok (some r) => more = [] ∧ result = .ok r
        | .error message => more = [] ∧ result = .error (.host message)

/-- The exchanges and the result of a located identifier. -/
def Route (i : Importer) (l : Located) (prev : Text) (log : List Exchange)
    (result : Except Failure Resolved) : Prop :=
  match l.record with
  | none => i.RelativeRoute l prev true [] log result
  | some r =>
    match r.stylesheetDir with
    | some dir => i.ModuleRoute l prev dir log result
    | none =>
      if l.isRealFile then i.RelativeRoute l prev true [] log result
      else ∃ answer, log = [.askHost l.identifier prev answer] ∧
        result = answered (.error (.promised (missingDir r))) answer

/-! ### Every run takes a route -/

variable {σ : Type}

theorem run_importOnce (i : Importer) (path contents : Text) (s : Compilation σ) :
    ∃ first, (i.importOnce { contents, file := path }).exchanges s = [.mark path first] ∧
      ((i.importOnce { contents, file := path }).run s).1 = .ok (i.marked path contents first) := by
  unfold importOnce
  simp only [Plan.exchanges, Plan.run]
  refine ⟨(s.mark path).1, ?_⟩
  cases honce : (i.settings.enableImportOnce && !(s.mark path).1) with
  | true => exact ⟨rfl, by simp [Plan.run, marked, honce]⟩
  | false => exact ⟨rfl, by simp [Plan.run, marked, honce]⟩

theorem run_orHost (identifier prev : Text) (onMiss : Plan Resolved) (s : Compilation σ) :
    ∃ answer s', (s.ask identifier prev) = (answer, s') ∧
      (orHost identifier prev id onMiss).exchanges s = .askHost identifier prev answer ::
        (if answer = .ok none then onMiss.exchanges s' else []) ∧
      ((orHost identifier prev id onMiss).run s).1 = answered (onMiss.run s').1 answer := by
  unfold orHost
  simp only [Plan.exchanges, Plan.run]
  rcases hask : s.ask identifier prev with ⟨message | _ | r, s'⟩
  · exact ⟨.error message, s', rfl, by simp, rfl⟩
  · exact ⟨.ok none, s', rfl, by simp, rfl⟩
  · exact ⟨.ok (some r), s', rfl, by simp [Plan.exchanges], rfl⟩

theorem route_resolveRelative (i : Importer) (l : Located) (prev : Text) (withIncludes : Bool)
    (probed : List Text) (s : Compilation σ) :
    i.RelativeRoute l prev withIncludes probed
      ((i.resolveRelative l prev withIncludes probed).exchanges s)
      ((i.resolveRelative l prev withIncludes probed).run s).1 := by
  obtain ⟨found, probed', s', hsearch, hrun, hmiss⟩ :=
    run_readFirst l.identifier (i.relativeCandidates l withIncludes) probed s
  refine ⟨_, found, hsearch, ?_⟩
  unfold resolveRelative
  cases found with
  | hit path contents =>
    rw [Plan.exchanges_bind_of_ok hrun, Plan.run_bind_of_ok hrun]
    obtain ⟨first, hlog, hresult⟩ := i.run_importOnce path contents s'
    exact ⟨first, congrArg _ hlog, hresult⟩
  | broken path e =>
    rw [Plan.exchanges_bind_of_error hrun, Plan.run_bind_of_error hrun]
    exact ⟨rfl, rfl⟩
  | miss =>
    rw [Plan.exchanges_bind_of_ok hrun, Plan.run_bind_of_ok hrun]
    obtain ⟨answer, s'', _, hlog, hresult⟩ := run_orHost l.identifier prev
      (.fail (.promised (.notFound l.identifier probed' prev))) s'
    refine ⟨answer, ?_, ?_⟩
    · dsimp only
      rw [hlog]
      simp [Plan.exchanges]
    · rw [← hmiss rfl]
      exact hresult

theorem route_resolveInModule (i : Importer) (l : Located) (prev dir : Text)
    (s : Compilation σ) :
    i.ModuleRoute l prev dir ((i.resolveInModule l prev dir).exchanges s)
      ((i.resolveInModule l prev dir).run s).1 := by
  obtain ⟨found, probed', s', hsearch, hrun, hmiss⟩ :=
    run_readFirst l.relativePath (i.moduleCandidates dir (l.moduleName.getD []) l.relativePath) [] s
  refine ⟨_, found, hsearch, ?_⟩
  unfold resolveInModule
  cases found with
  | hit path contents =>
    rw [Plan.exchanges_bind_of_ok hrun, Plan.run_bind_of_ok hrun]
    obtain ⟨first, hlog, hresult⟩ := i.run_importOnce path contents s'
    exact ⟨first, congrArg _ hlog, hresult⟩
  | broken path e =>
    rw [Plan.exchanges_bind_of_error hrun, Plan.run_bind_of_error hrun]
    exact ⟨rfl, rfl⟩
  | miss =>
    rw [Plan.exchanges_bind_of_ok hrun, Plan.run_bind_of_ok hrun]
    simp only [Plan.exchanges, Plan.run]
    obtain ⟨answer, s'', _, hlog, hresult⟩ := run_orHost l.identifier prev
      (i.resolveRelative l prev false probed') (s'.noteAll [notInModuleEvent l.identifier dir])
    rw [hlog, hresult]
    refine ⟨answer, _, rfl, ?_⟩
    rcases answer with message | _ | r
    · exact ⟨by simp, rfl⟩
    · rw [← hmiss rfl]
      exact i.route_resolveRelative l prev false probed' s''
    · exact ⟨by simp, rfl⟩

theorem route_resolveLocated (i : Importer) (l : Located) (prev : Text) (s : Compilation σ) :
    i.Route l prev ((i.resolveLocated l prev).exchanges s) ((i.resolveLocated l prev).run s).1 := by
  unfold Route resolveLocated
  cases l.record with
  | none => exact i.route_resolveRelative l prev true [] s
  | some r =>
    cases hdir : r.stylesheetDir with
    | some dir =>
      simp only [hdir]
      exact i.route_resolveInModule l prev dir s
    | none =>
      simp only [hdir]
      split
      · exact i.route_resolveRelative l prev true [] s
      · obtain ⟨answer, s', _, hlog, hresult⟩ := run_orHost l.identifier prev
          (.fail (.promised (missingDir r))) s
        refine ⟨answer, ?_, hresult⟩
        rw [hlog]
        simp [Plan.exchanges]

/-! ### What holds on every route -/

/-- Where an element stands in two lists put together. -/
private theorem append_eq_append_cons {α : Type} {as bs before after : List α} {x : α}
    (h : as ++ bs = before ++ x :: after) :
    (∃ after', as = before ++ x :: after' ∧ after = after' ++ bs) ∨
      ∃ before', before = as ++ before' ∧ bs = before' ++ x :: after := by
  rcases List.append_eq_append_iff.mp h with ⟨before', hbefore, hbs⟩ | ⟨rest, has, hrest⟩
  · exact .inr ⟨before', hbefore, hbs⟩
  · cases rest with
    | nil => exact .inr ⟨[], by simpa using has.symm, by simpa using hrest.symm⟩
    | cons y rest =>
      obtain ⟨rfl, hafter⟩ := List.cons.inj hrest
      exact .inl ⟨rest, has, hafter⟩

/-- Whenever the host is asked, it is about this import as it was given. -/
def AsksFor (identifier prev : Text) (log : List Exchange) : Prop :=
  ∀ j p answer, .askHost j p answer ∈ log → j = identifier ∧ p = prev

/-- A read that is a hit or a failure decides the import: nothing but the mark follows a hit, and
nothing at all follows a failure. -/
def EndsWithRead (i : Importer) (log : List Exchange) (result : Except Failure Resolved) : Prop :=
  ∀ before path o after, log = before ++ .read path o :: after →
    match Search.ofRead path o with
    | .hit path contents =>
      ∃ first, after = [.mark path first] ∧ result = .ok (i.marked path contents first)
    | .broken path e => after = [] ∧ result = .error (readError path e)
    | .miss => True

theorem AsksFor.of_searched {identifier prev : Text} {paths : List Text} {log : List Exchange}
    {found : Search} (h : Searched paths log found) : AsksFor identifier prev log :=
  fun _ _ _ hx => absurd trivial (h.not_isAsk _ hx)

theorem AsksFor.append {identifier prev : Text} {log more : List Exchange}
    (h₁ : AsksFor identifier prev log) (h₂ : AsksFor identifier prev more) :
    AsksFor identifier prev (log ++ more) := by
  intro j p answer hx
  rcases List.mem_append.mp hx with hx | hx
  · exact h₁ j p answer hx
  · exact h₂ j p answer hx

theorem AsksFor.singleton (identifier prev : Text) (answer : Except Text (Option Resolved)) :
    AsksFor identifier prev [.askHost identifier prev answer] := by
  intro j p a hx
  rw [List.mem_singleton, Exchange.askHost.injEq] at hx
  exact ⟨hx.1, hx.2.1⟩

theorem AsksFor.mark (identifier prev path : Text) (first : Bool) :
    AsksFor identifier prev [.mark path first] := by
  intro j p a hx
  simp at hx

section Routes

variable {i : Importer} {l : Located} {prev : Text} {log : List Exchange}
  {result : Except Failure Resolved}

/-- In a search that came to nothing no read decided anything. -/
theorem not_miss_of_searched_miss {paths : List Text} {phase before after : List Exchange}
    {path : Text} {o : ReadOutcome} (h : Searched paths phase .miss)
    (hphase : phase = before ++ .read path o :: after) : Search.ofRead path o = .miss := by
  by_contra ho
  exact ho (h.read_last hphase ho).2.symm

/-- The end of a search that found a file or failed. -/
theorem endsWithRead_of_hit {paths : List Text} {phase : List Exchange} {path contents : Text}
    (h : Searched paths phase (.hit path contents)) (first : Bool) :
    EndsWithRead i (phase ++ [.mark path first]) (.ok (i.marked path contents first)) := by
  intro before path' o after hlog
  -- The mark is no read, so the read is one of the search; if it decides, it is the last one.
  rcases append_eq_append_cons hlog with ⟨after', hphase, rfl⟩ | ⟨before', _, hmark⟩
  · by_cases ho : Search.ofRead path' o = .miss
    · rw [ho]
      trivial
    · obtain ⟨rfl, hfound⟩ := h.read_last hphase ho
      rw [← hfound]
      exact ⟨first, rfl, rfl⟩
  · rcases before' with _ | ⟨_, _ | _⟩ <;> simp at hmark

theorem endsWithRead_of_broken {paths : List Text} {phase : List Exchange} {path : Text}
    {e : ReadFailure} (h : Searched paths phase (.broken path e)) :
    EndsWithRead i phase (.error (readError path e)) := by
  intro before path' o after hlog
  by_cases ho : Search.ofRead path' o = .miss
  · rw [ho]
    trivial
  · obtain ⟨rfl, hfound⟩ := h.read_last hlog ho
    rw [← hfound]
    exact ⟨rfl, rfl⟩

/-- What follows a search that came to nothing decides. -/
theorem EndsWithRead.append {paths : List Text} {phase more : List Exchange}
    (h : Searched paths phase .miss) (hmore : EndsWithRead i more result) :
    EndsWithRead i (phase ++ more) result := by
  intro before path o after hlog
  rcases append_eq_append_cons hlog with ⟨after', hphase, _⟩ | ⟨before', _, hmore'⟩
  · rw [not_miss_of_searched_miss h hphase]
    trivial
  · exact hmore before' path o after hmore'

/-- The host decides nothing by itself as far as reads are concerned. -/
theorem EndsWithRead.cons_ask {more : List Exchange} (identifier : Text)
    (answer : Except Text (Option Resolved)) (hmore : EndsWithRead i more result) :
    EndsWithRead i (.askHost identifier prev answer :: more) result := by
  intro before path o after hlog
  cases before with
  | nil => simp at hlog
  | cons x before => exact hmore before path o after (List.cons.inj hlog).2

theorem EndsWithRead.nil : EndsWithRead i [] result := by
  intro before path o after hlog
  simp at hlog

theorem RelativeRoute.asksFor {withIncludes : Bool} {probed : List Text}
    (h : i.RelativeRoute l prev withIncludes probed log result) :
    AsksFor l.identifier prev log := by
  obtain ⟨phase, found, hsearch, h⟩ := h
  have hphase : AsksFor l.identifier prev phase := AsksFor.of_searched hsearch
  cases found with
  | hit path contents =>
    obtain ⟨first, rfl, _⟩ := h
    exact hphase.append (AsksFor.mark _ _ _ _)
  | broken path e =>
    obtain ⟨rfl, _⟩ := h
    exact hphase
  | miss =>
    obtain ⟨answer, rfl, _⟩ := h
    exact hphase.append (AsksFor.singleton _ _ _)

theorem RelativeRoute.endsWithRead {withIncludes : Bool} {probed : List Text}
    (h : i.RelativeRoute l prev withIncludes probed log result) : EndsWithRead i log result := by
  obtain ⟨phase, found, hsearch, h⟩ := h
  cases found with
  | hit path contents =>
    obtain ⟨first, rfl, rfl⟩ := h
    exact endsWithRead_of_hit hsearch first
  | broken path e =>
    obtain ⟨rfl, rfl⟩ := h
    exact endsWithRead_of_broken hsearch
  | miss =>
    obtain ⟨answer, rfl, _⟩ := h
    exact EndsWithRead.append hsearch (EndsWithRead.nil.cons_ask _ _)

theorem ModuleRoute.asksFor {dir : Text} (h : i.ModuleRoute l prev dir log result) :
    AsksFor l.identifier prev log := by
  obtain ⟨phase, found, hsearch, h⟩ := h
  have hphase : AsksFor l.identifier prev phase := AsksFor.of_searched hsearch
  cases found with
  | hit path contents =>
    obtain ⟨first, rfl, _⟩ := h
    exact hphase.append (AsksFor.mark _ _ _ _)
  | broken path e =>
    obtain ⟨rfl, _⟩ := h
    exact hphase
  | miss =>
    obtain ⟨answer, more, rfl, h⟩ := h
    have hask := AsksFor.singleton l.identifier prev answer
    rcases answer with message | _ | r
    · obtain ⟨rfl, _⟩ := h
      exact hphase.append hask
    · exact hphase.append (hask.append h.asksFor)
    · obtain ⟨rfl, _⟩ := h
      exact hphase.append hask

theorem ModuleRoute.endsWithRead {dir : Text} (h : i.ModuleRoute l prev dir log result) :
    EndsWithRead i log result := by
  obtain ⟨phase, found, hsearch, h⟩ := h
  cases found with
  | hit path contents =>
    obtain ⟨first, rfl, rfl⟩ := h
    exact endsWithRead_of_hit hsearch first
  | broken path e =>
    obtain ⟨rfl, rfl⟩ := h
    exact endsWithRead_of_broken hsearch
  | miss =>
    obtain ⟨answer, more, rfl, h⟩ := h
    refine EndsWithRead.append hsearch (EndsWithRead.cons_ask _ _ ?_)
    rcases answer with message | _ | r
    · obtain ⟨rfl, _⟩ := h
      exact EndsWithRead.nil
    · exact h.endsWithRead
    · obtain ⟨rfl, _⟩ := h
      exact EndsWithRead.nil

theorem Route.asksFor (h : i.Route l prev log result) : AsksFor l.identifier prev log := by
  unfold Route at h
  split at h
  · exact h.asksFor
  · split at h
    · exact h.asksFor
    · split at h
      · exact h.asksFor
      · obtain ⟨answer, rfl, _⟩ := h
        exact AsksFor.singleton _ _ _

theorem Route.endsWithRead (h : i.Route l prev log result) : EndsWithRead i log result := by
  unfold Route at h
  split at h
  · exact h.endsWithRead
  · split at h
    · exact h.endsWithRead
    · split at h
      · exact h.endsWithRead
      · obtain ⟨answer, rfl, _⟩ := h
        exact EndsWithRead.nil.cons_ask _ _

/-! ### How an import fails -/

/-- The errors of a lookup as a path: a candidate that cannot be read, which is the last exchange, a
failure of the host, or that nothing was found. -/
def PathError (log : List Exchange) (e : Failure) : Prop :=
  (∃ path r before, log = before ++ [.read path (.error r)] ∧ e = readError path r) ∨
    (∃ message, e = .host message) ∨
    ∃ identifier candidates prev, e = .promised (.notFound identifier candidates prev)

theorem eq_error_of_ofRead {path path' : Text} {o : ReadOutcome} {e : ReadFailure}
    (h : Search.broken path e = Search.ofRead path' o) : path = path' ∧ o = .error e := by
  rcases o with r | t
  · simp only [Search.ofRead] at h
    split at h
    · simp at h
    · rw [Search.broken.injEq] at h
      exact ⟨h.1, h.2 ▸ rfl⟩
  · simp [Search.ofRead] at h

theorem pathError_of_broken {paths : List Text} {phase : List Exchange} {path : Text}
    {e : ReadFailure} (h : Searched paths phase (.broken path e)) (before : List Exchange) :
    PathError (before ++ phase) (readError path e) := by
  obtain ⟨front, path', o, rfl, hfound⟩ := h.eq_concat (by simp)
  obtain ⟨rfl, rfl⟩ := eq_error_of_ofRead hfound
  exact .inl ⟨path, e, before ++ front, by simp, rfl⟩

theorem RelativeRoute.pathError {withIncludes : Bool} {probed : List Text}
    (h : i.RelativeRoute l prev withIncludes probed log result) {e : Failure}
    (he : result = .error e) (before : List Exchange) : PathError (before ++ log) e := by
  obtain ⟨phase, found, hsearch, h⟩ := h
  cases found with
  | hit path contents =>
    obtain ⟨first, _, rfl⟩ := h
    simp at he
  | broken path r =>
    obtain ⟨rfl, rfl⟩ := h
    rw [Except.error.injEq] at he
    exact he ▸ pathError_of_broken hsearch before
  | miss =>
    obtain ⟨answer, _, rfl⟩ := h
    rcases answer with message | _ | r
    · exact .inr (.inl ⟨message, (Except.error.inj he).symm⟩)
    · exact .inr (.inr ⟨_, _, _, (Except.error.inj he).symm⟩)
    · simp [answered] at he

theorem ModuleRoute.pathError {dir : Text} (h : i.ModuleRoute l prev dir log result) {e : Failure}
    (he : result = .error e) : PathError log e := by
  obtain ⟨phase, found, hsearch, h⟩ := h
  cases found with
  | hit path contents =>
    obtain ⟨first, _, rfl⟩ := h
    simp at he
  | broken path r =>
    obtain ⟨rfl, rfl⟩ := h
    rw [Except.error.injEq] at he
    exact he ▸ pathError_of_broken hsearch []
  | miss =>
    obtain ⟨answer, more, rfl, h⟩ := h
    rcases answer with message | _ | r
    · obtain ⟨_, rfl⟩ := h
      exact .inr (.inl ⟨message, (Except.error.inj he).symm⟩)
    · have hmore := h.pathError he (phase ++ [.askHost l.identifier prev (.ok none)])
      simpa using hmore
    · obtain ⟨_, rfl⟩ := h
      simp at he

/-- The errors of an import whose identifier was located: those of a lookup as a path, and the one
about a module that declares no stylesheet directory and that no file asked for, for which the host
had no answer either. -/
theorem Route.error_cases (h : i.Route l prev log result) {e : Failure} (he : result = .error e) :
    PathError log e ∨ ∃ r, l.record = some r ∧ r.stylesheetDir = none ∧ l.isRealFile = false ∧
      log = [.askHost l.identifier prev (.ok none)] ∧ e = .promised (missingDir r) := by
  unfold Route at h
  -- Only the last way out, where the host is asked at once, is no lookup as a path.
  split at h
  · exact .inl (h.pathError he [])
  · rename_i r hr
    split at h
    · exact .inl (h.pathError he)
    · rename_i hdir
      split at h
      · exact .inl (h.pathError he [])
      · rename_i hreal
        obtain ⟨answer, rfl, rfl⟩ := h
        rcases answer with message | _ | r'
        · exact .inl (.inr (.inl ⟨message, (Except.error.inj he).symm⟩))
        · exact .inr ⟨r, hr, hdir, by simpa using hreal, rfl, (Except.error.inj he).symm⟩
        · simp [answered] at he

/-- A module without a stylesheet directory that no file asked for is an error if the host has no
answer. -/
theorem Route.of_noStylesheetDir (h : i.Route l prev log result) {r : ModuleRecord}
    (hr : l.record = some r) (hdir : r.stylesheetDir = none) (hreal : l.isRealFile = false)
    (hlog : log = [.askHost l.identifier prev (.ok none)]) :
    result = .error (.promised (missingDir r)) := by
  simp only [Route, hr, hdir, hreal] at h
  obtain ⟨answer, rfl, rfl⟩ := h
  simp only [List.cons.injEq, Exchange.askHost.injEq, and_true, true_and] at hlog
  rw [hlog]
  rfl

end Routes

theorem PathError.ne_unrecognized {log : List Exchange} {identifier : Text} :
    ¬ PathError log (.promised (.unrecognized identifier)) := by
  rintro (⟨path, r, before, _, he⟩ | ⟨message, he⟩ | ⟨j, candidates, prev, he⟩)
  · cases r <;> simp [readError] at he
  · simp at he
  · simp at he

theorem PathError.ne_noStylesheetDir {log : List Exchange} {name : Text}
    {metadata main : Option Text} :
    ¬ PathError log (.promised (.noStylesheetDir name metadata main)) := by
  rintro (⟨path, r, before, _, he⟩ | ⟨message, he⟩ | ⟨j, candidates, prev, he⟩)
  · cases r <;> simp [readError] at he
  · simp at he
  · simp at he

/-- An error about a candidate that cannot be read comes from the last exchange. -/
theorem PathError.last_read {log : List Exchange} {path : Text} {r : ReadFailure}
    (h : PathError log (.promised (.unreadable path r))) :
    ∃ before, log = before ++ [.read path (.error r)] := by
  rcases h with ⟨path', r', before, hlog, he⟩ | ⟨message, he⟩ | ⟨j, candidates, prev, he⟩
  · have hsame : path = path' ∧ r = r' := by
      cases r' with
      | nulInPath => simp [readError] at he
      | system e => simpa [readError] using he
      | undecodable f => simpa [readError] using he
    obtain ⟨rfl, rfl⟩ := hsame
    exact ⟨before, hlog⟩
  · simp at he
  · simp at he

/-- **Who is asked for an import.**  For every run of an import from a module or a directory, on any
host and any session, with `log` its exchanges and `result` what comes of it:

* the host's own resolver is only ever asked about the identifier and the requesting file as they
  were given;
* an identifier of no recognizable shape, or a registry that fails, ends the import before anything
  is read and before the host is asked;
* once the identifier is located, `Route` says what follows: where the host is asked after a search
  that came to nothing and what its answer leads to.  A read that is a hit is followed by the mark
  of the file only, a read that fails for good by nothing at all;
* the error about a missing stylesheet directory arises exactly if the module was found and declares
  none, the requesting file is no file, and the host, asked once, had no answer; no candidate is
  looked at then. -/
theorem resolveModule_routes (i : Importer) (s : Compilation σ) (identifier prev : Text) :
    let located := Located.locate i.settings.root identifier prev
    let log := (i.resolveModule identifier prev).exchanges s
    let result := ((i.resolveModule identifier prev).run s).1
    AsksFor identifier prev log ∧
    (∀ j, result = .error (.promised (.unrecognized j)) → ∀ x ∈ log, ¬ x.IsAsk) ∧
    (∀ e, (located.run s).1 = .error e →
      result = .error e ∧ ∀ x ∈ log, ¬ x.IsAsk ∧ ¬ x.IsRead) ∧
    ∀ l, (located.run s).1 = .ok l →
      ∃ rest, log = located.exchanges s ++ rest ∧ (∀ x ∈ located.exchanges s, ¬ x.IsAsk) ∧
        i.Route l prev rest result ∧
        (∀ before path contents after, log = before ++ .read path (.ok contents) :: after →
          ∃ first, after = [.mark path first] ∧ result = .ok (i.marked path contents first)) ∧
        (∀ before path e after, log = before ++ .read path (.error e) :: after →
          e.isMissing = false → after = [] ∧ result = .error (readError path e)) ∧
        (∀ path e, result = .error (.promised (.unreadable path e)) →
          ∃ before, log = before ++ [.read path (.error e)]) ∧
        ∀ name metadata main,
          result = .error (.promised (.noStylesheetDir name metadata main)) ↔
            (∃ r, l.record = some r ∧ r.stylesheetDir = none ∧
              missingDir r = .noStylesheetDir name metadata main) ∧
            s.host.isFile s.state prev = false ∧
            rest = [.askHost identifier prev (.ok none)] := by
  intro located log result
  have hlook : ∀ x ∈ located.exchanges s, ¬ x.IsAsk ∧ ¬ x.IsRead :=
    (Located.looksOnly_locate i.settings.root identifier prev).exchanges s
  rcases hrun : located.run s with ⟨e | l, s'⟩
  · -- Nothing was located.
    have hlog : log = located.exchanges s := Plan.exchanges_bind_of_error hrun _
    have hresult : result = .error e :=
      congrArg Prod.fst (Plan.run_bind_of_error hrun fun l => i.resolveLocated l prev)
    rw [hlog]
    refine ⟨fun j p a hx => absurd trivial (hlook _ hx).1, fun _ _ x hx => (hlook x hx).1, ?_, ?_⟩
    · rintro e' he'
      rw [Except.error.injEq] at he'
      exact ⟨he' ▸ hresult, hlook⟩
    · rintro l' hl'
      simp at hl'
  · have hlog : log = located.exchanges s ++ (i.resolveLocated l prev).exchanges s' :=
      Plan.exchanges_bind_of_ok hrun _
    have hresult : result = ((i.resolveLocated l prev).run s').1 :=
      congrArg Prod.fst (Plan.run_bind_of_ok hrun fun l => i.resolveLocated l prev)
    obtain ⟨hidentifier, hreal, _⟩ := Located.locate_run hrun
    set rest := (i.resolveLocated l prev).exchanges s' with hrest
    have hroute : i.Route l prev rest result := hresult ▸ i.route_resolveLocated l prev s'
    -- Whatever is read is read after the identifier was located.
    have hread : ∀ before path o after, log = before ++ .read path o :: after →
        ∃ before', rest = before' ++ .read path o :: after := by
      intro before path o after h
      rcases append_eq_append_cons (hlog.symm.trans h) with ⟨after', hx, _⟩ | ⟨before', _, hx⟩
      · exact absurd trivial (hlook (.read path o) (by simp [hx])).2
      · exact ⟨before', hx⟩
    refine ⟨?_, ?_, ?_, ?_⟩
    · rw [hlog]
      refine AsksFor.append (fun j p a hx => absurd trivial (hlook _ hx).1) ?_
      exact hidentifier ▸ hroute.asksFor
    · intro j hj
      rcases hroute.error_cases hj with he | ⟨r, _, _, _, _, he⟩
      · exact absurd he PathError.ne_unrecognized
      · simp [missingDir] at he
    · rintro e he
      simp at he
    · rintro l' hl'
      obtain rfl : l = l' := Except.ok.inj hl'
      refine ⟨rest, hlog, fun x hx => (hlook x hx).1, hroute, ?_, ?_, ?_, ?_⟩
      · intro before path contents after h
        obtain ⟨before', h'⟩ := hread _ _ _ _ h
        exact hroute.endsWithRead _ _ _ _ h'
      · intro before path e after h he
        obtain ⟨before', h'⟩ := hread _ _ _ _ h
        have hend := hroute.endsWithRead _ _ _ _ h'
        simpa [Search.ofRead, he] using hend
      · intro path e he
        rcases hroute.error_cases he with he' | ⟨r, _, _, _, _, he'⟩
        · obtain ⟨before, hb⟩ := he'.last_read
          exact ⟨located.exchanges s ++ before, by rw [hlog, hb, List.append_assoc]⟩
        · simp [missingDir] at he'
      · intro name metadata main
        constructor
        · intro he
          rcases hroute.error_cases he with he' | ⟨r, hr, hdir, hnot, hask, he'⟩
          · exact absurd he' PathError.ne_noStylesheetDir
          · exact ⟨⟨r, hr, hdir, (Failure.promised.inj he').symm⟩, hreal ▸ hnot, hidentifier ▸ hask⟩
        · rintro ⟨⟨r, hr, hdir, hmissing⟩, hnot, hask⟩
          rw [← hmissing]
          exact hroute.of_noStylesheetDir hr hdir (hreal.trans hnot) (hidentifier ▸ hask)

end Importer

end StyleImport
