/-
A failing import leaves no trace.

What those who come later can see of a session is its view: the keys on the desk with the outcomes
of their reads, the files that are marked and the tokens that are bound.  Between imports that
follow one another all reads on the desk succeeded, since a failed one was taken off by the only
reader that it had.

* `Session.Reached`, `Session.Reached.quiet` — the sessions between plans that follow one another;
* `Plan.run_withSession` — sessions with the same view answer every plan alike;
* `Plan.Tidy`, `Plan.Tidy.view_eq` — plans that never fail once there is something to clear away;
* `Importer.run_resolve_error` — imports are such plans, so one that fails leaves the view alone.
-/
import StyleImport.Proofs.Import.Inherited
import StyleImport.Proofs.Import.ReadDesk

namespace StyleImport

/-! ### Entries -/

namespace Entries

variable {κ α β : Type} [DecidableEq κ]

theorem get?_map (f : α → β) (k : κ) (es : List (κ × α)) :
    get? k (es.map fun e => (e.1, f e.2)) = (get? k es).map f := by
  induction es with
  | nil => rfl
  | cons e es ih =>
    obtain ⟨k', v⟩ := e
    by_cases h : k' = k
    · simp [get?, getBy?, h]
    · simpa [get?, getBy?, h] using ih

/-- An entry that was put at the end is taken off again. -/
theorem erase_concat {k : κ} {es : List (κ × α)} (h : get? k es = none) (v : α) :
    erase k (es ++ [(k, v)]) = es := by
  have hkeep : ∀ e ∈ es, (!decide (e.1 = k)) = true := by
    intro e he
    have hne : e.1 ≠ k := by
      rintro rfl
      obtain ⟨v', hv'⟩ := mem_keys_iff.mp (List.mem_map_of_mem he)
      rw [h] at hv'
      cases hv'
    simp [hne]
  rw [erase, eraseBy, List.filter_append, List.filter_eq_self.mpr hkeep]
  simp

end Entries

/-! ### What can be seen of a session -/

namespace ReadDesk

/-- The keys on the desk, with the outcomes of their reads. -/
def cache (d : ReadDesk) : List (Text × Option ReadOutcome) :=
  d.tickets.map fun e => (e.1, d.outcome? e.2)

/-- A desk that nobody waits at: every read on it succeeded. -/
def Quiet (d : ReadDesk) : Prop := ∀ e ∈ d.cache, ∃ t, e.2 = some (.ok t)

theorem get?_cache (d : ReadDesk) (key : Text) :
    Entries.get? key d.cache = (Entries.get? key d.tickets).map d.outcome? :=
  Entries.get?_map d.outcome? key d.tickets

variable {d : ReadDesk} {key : Text}

theorem Quiet.of_get? (h : d.Quiet) {n : Nat} (hn : Entries.get? key d.tickets = some n) :
    ∃ t, d.outcome? n = some (.ok t) := by
  have hcache : Entries.get? key d.cache = some (d.outcome? n) := by
    rw [get?_cache, hn, Option.map_some]
  exact h _ (Entries.mem_of_get? hcache)

/-- What is on the desk after a read from beginning to end: a failed one has gone again. -/
def cacheAfter (cache : List (Text × Option ReadOutcome)) (key : Text) :
    ReadOutcome → List (Text × Option ReadOutcome)
  | .ok t => cache ++ [(key, some (.ok t))]
  | .error _ => cache

/-- A read of a key that is not on a quiet desk, from beginning to end. -/
theorem Quiet.cache_read (h : d.Quiet) (hnew : Entries.get? key d.tickets = none)
    (o : ReadOutcome) :
    (((d.arrive key).2.2.complete (d.arrive key).1 o).resume key (d.arrive key).1 o).cache
      = cacheAfter d.cache key o := by
  -- The reads on the desk are over, so one more place for an outcome makes no difference to them.
  have hold : d.tickets.map (fun e => (e.1, ((d.outcomes ++ [some o])[e.2]?).getD none))
      = d.cache := by
    refine List.map_congr_left fun e he => ?_
    obtain ⟨t, ht⟩ := h _ (List.mem_map_of_mem he)
    have hlt : e.2 < d.outcomes.length := by
      by_contra hge
      rw [outcome?, List.getElem?_eq_none (by omega)] at ht
      cases ht
    rw [List.getElem?_append_left hlt, outcome?]
  have hset : (d.outcomes ++ [none]).set d.outcomes.length (some o)
      = d.outcomes ++ [some o] := by
    simp
  rw [arrive_of_none hnew]
  simp only [complete, hset]
  cases o with
  | ok t =>
    simp only [resume, cache, outcome?, List.map_append, cacheAfter, List.map_cons, List.map_nil]
    rw [hold]
    simp [cache, outcome?]
  | error e =>
    have hself : Entries.get? key (d.tickets ++ [(key, d.outcomes.length)])
        = some d.outcomes.length := by
      rw [← Entries.put_of_get?_eq_none hnew]
      exact Entries.get?_put_self _ _ _
    simp only [resume, hself, if_pos, Entries.erase_concat hnew, cacheAfter]
    exact hold

end ReadDesk

namespace Session

/-- What can be seen of a session. -/
structure View where
  /-- What is on the desk. -/
  cache : List (Text × Option ReadOutcome)
  /-- The files that are marked. -/
  imported : List Text
  /-- The paths that tokens are bound to, in order. -/
  bindings : List (Text × Text)
  deriving DecidableEq

def view (s : Session) : View := ⟨s.desk.cache, s.imported, s.bindings⟩

theorem view_eq_iff {s s' : Session} : s.view = s'.view ↔
    s.desk.cache = s'.desk.cache ∧ s.imported = s'.imported ∧ s.bindings = s'.bindings := by
  rw [view, view, View.mk.injEq]

/-- The sessions between plans that follow one another: a fresh one, and one after a plan that was
run to its end.  A plan may be an import, a read, a mark or a registration, and files, registry,
reader and host may be others each time. -/
inductive Reached : Session → Prop
  | fresh : Reached {}
  | run {σ α : Type} (p : Plan α) (s : Compilation σ) :
    Reached s.session → Reached (p.run s).2.session

/-- Sessions with the same view mark a file alike. -/
theorem mark_of_view_eq {s s' : Session} (h : s.view = s'.view) (cwd file : Text) :
    (s.mark cwd file).1 = (s'.mark cwd file).1 ∧
      (s.mark cwd file).2.view = (s'.mark cwd file).2.view := by
  obtain ⟨hcache, himported, hbindings⟩ := view_eq_iff.mp h
  unfold mark
  dsimp only
  rw [himported]
  split
  · exact ⟨rfl, h⟩
  · exact ⟨rfl, view_eq_iff.mpr ⟨hcache, rfl, hbindings⟩⟩

/-- Sessions with the same view register a path alike. -/
theorem register_of_view_eq {s s' : Session} (h : s.view = s'.view) (token path : Text) :
    (s.register token path).1 = (s'.register token path).1 ∧
      (s.register token path).2.1.view = (s'.register token path).2.1.view ∧
      (s.register token path).2.2 = (s'.register token path).2.2 := by
  obtain ⟨hcache, himported, hbindings⟩ := view_eq_iff.mp h
  unfold register
  rw [hbindings]
  cases Entries.get? token s'.bindings with
  | some bound => exact ⟨rfl, h, rfl⟩
  | none => exact ⟨rfl, view_eq_iff.mpr ⟨hcache, himported, rfl⟩, rfl⟩

theorem desk_mark (s : Session) (cwd file : Text) : (s.mark cwd file).2.desk = s.desk := by
  unfold mark
  dsimp only
  split <;> rfl

theorem desk_register (s : Session) (token path : Text) :
    (s.register token path).2.1.desk = s.desk := by
  unfold register
  cases Entries.get? token s.bindings <;> rfl

end Session

/-! ### Reads on a quiet session -/

namespace Compilation

variable {σ : Type} {s : Compilation σ}

/-- What comes of a read that is not on the desk. -/
def readAnew (s : Compilation σ) (path : Text) : ReadOutcome × σ :=
  s.host.read (s.key path) (s.noteAll [.detail .session ("[import:read] " ++ s.key path)]).state

/-- On a quiet session a read tells what is on the desk, or else it is a new one. -/
theorem readOnce_cases (h : s.session.desk.Quiet) (path : Text) :
    (∃ t, Entries.get? (s.key path) s.session.desk.cache = some (some (.ok t)) ∧
      s.readOnce path = (.ok t, s)) ∨
    Entries.get? (s.key path) s.session.desk.cache = none ∧
      ∃ desk : ReadDesk,
        desk.cache = ReadDesk.cacheAfter s.session.desk.cache (s.key path) (s.readAnew path).1 ∧
        s.readOnce path = ((s.readAnew path).1,
          { s with state := (s.readAnew path).2, session := { s.session with desk } }) := by
  rw [ReadDesk.get?_cache]
  cases hkey : Entries.get? (s.key path) s.session.desk.tickets with
  | some n =>
    left
    obtain ⟨t, ht⟩ := h.of_get? hkey
    refine ⟨t, congrArg some ht, ?_⟩
    simp only [readOnce, arrive, ReadDesk.arrive_of_some hkey, complete, ht, Bool.false_eq_true,
      if_false]
    rfl
  | none =>
    refine .inr ⟨rfl, _, h.cache_read hkey _, ?_⟩
    -- A read that was just started has no outcome yet.
    have hpending : (s.session.desk.arrive (s.key path)).2.2.outcome?
        (s.session.desk.arrive (s.key path)).1 = none := by
      rw [ReadDesk.outcome?_arrive, ReadDesk.arrive_of_none hkey, ReadDesk.outcome?,
        List.getElem?_eq_none (Nat.le_refl _)]
      rfl
    have hnew : (s.session.desk.arrive (s.key path)).2.1 = true := by
      rw [ReadDesk.arrive_of_none hkey]
    simp only [readOnce, arrive, hnew, if_true, complete, noteAll, hpending]
    rfl

/-- A session stays quiet after a read. -/
theorem quiet_readOnce (h : s.session.desk.Quiet) (path : Text) :
    (s.readOnce path).2.session.desk.Quiet := by
  rcases readOnce_cases h path with ⟨t, -, hread⟩ | ⟨-, desk, hcache, hread⟩
  · rw [hread]
    exact h
  · rw [hread]
    show desk.Quiet
    unfold ReadDesk.Quiet
    rw [hcache]
    cases (s.readAnew path).1 with
    | error e => exact h
    | ok t =>
      intro e he
      rcases List.mem_append.mp he with he | he
      · exact h e he
      · exact ⟨t, by rw [List.mem_singleton.mp he]⟩

/-- Sessions with the same view read alike. -/
theorem readOnce_withSession (h : s.session.desk.Quiet) {x : Session}
    (hview : x.view = s.session.view) (path : Text) :
    ∃ y : Session, ({ s with session := x } : Compilation σ).readOnce path
        = ((s.readOnce path).1, { (s.readOnce path).2 with session := y }) ∧
      y.view = (s.readOnce path).2.session.view := by
  obtain ⟨hcache, himported, hbindings⟩ := Session.view_eq_iff.mp hview
  have hx : x.desk.Quiet := by
    unfold ReadDesk.Quiet
    rw [hcache]
    exact h
  rcases readOnce_cases h path with ⟨t, hkey, hread⟩ | ⟨hkey, desk, hdesk, hread⟩
  · rcases readOnce_cases (s := { s with session := x }) hx path with
      ⟨t', hkey', hread'⟩ | ⟨hkey', -⟩
    · obtain rfl : t' = t := by
        have hsame := hkey'.symm.trans ((congrArg _ hcache).trans hkey)
        simpa using hsame
      exact ⟨x, by rw [hread', hread], by rw [hread, hview]⟩
    · exact absurd (hkey'.symm.trans ((congrArg _ hcache).trans hkey)) (by simp)
  · rcases readOnce_cases (s := { s with session := x }) hx path with
      ⟨t', hkey', -⟩ | ⟨-, desk', hdesk', hread'⟩
    · exact absurd (hkey'.symm.trans ((congrArg _ hcache).trans hkey)) (by simp)
    · refine ⟨{ x with desk := desk' }, by rw [hread', hread]; rfl, ?_⟩
      rw [hread]
      refine Session.view_eq_iff.mpr ⟨?_, himported, hbindings⟩
      show desk'.cache = desk.cache
      rw [hdesk', hdesk, hcache]
      rfl

end Compilation

/-! ### Plans on a quiet session -/

namespace Plan

variable {σ α β : Type}

/-- A session stays quiet after a plan. -/
theorem quiet_run (p : Plan α) {s : Compilation σ} (h : s.session.desk.Quiet) :
    (p.run s).2.session.desk.Quiet := by
  induction p generalizing s with
  | done | fail => exact h
  | isFile p next ih => exact ih _ h
  | lookup name context next ih =>
    rw [run, Compilation.lookup]
    rcases s.host.lookup name context s.state with ⟨e | r, state⟩
    · exact h
    · exact ih r (s := { s with state }) h
  | read p next ih => exact ih _ (Compilation.quiet_readOnce h p)
  | askHost identifier prev next ih =>
    rw [run, Compilation.ask]
    rcases s.host.ask identifier prev s.state with ⟨e | r, state⟩
    · exact h
    · exact ih r (s := { s with state }) h
  | mark file next ih =>
    refine ih _ ?_
    show (s.session.mark s.cwd file).2.desk.Quiet
    rw [Session.desk_mark]
    exact h
  | register token path next ih =>
    refine ih _ ?_
    show (s.session.register token path).2.1.desk.Quiet
    rw [Session.desk_register]
    exact h
  | note e next ih => exact ih (s := s.noteAll [e]) h
  | pause next ih => exact ih h

/-- Sessions with the same view answer every plan alike. -/
theorem run_withSession (p : Plan α) {s : Compilation σ} {x : Session}
    (h : s.session.desk.Quiet) (hview : x.view = s.session.view) :
    ∃ y : Session, p.run { s with session := x }
        = ((p.run s).1, { (p.run s).2 with session := y }) ∧
      y.view = (p.run s).2.session.view := by
  induction p generalizing s x with
  | done | fail => exact ⟨x, rfl, hview⟩
  | isFile p next ih => exact ih _ h hview
  | lookup name context next ih =>
    simp only [run, Compilation.lookup]
    rcases hfound : s.host.lookup name context s.state with ⟨e | r, state⟩ <;> simp only [hfound]
    · exact ⟨x, rfl, hview⟩
    · exact ih r (s := { s with state }) h hview
  | read p next ih =>
    obtain ⟨y, hread, hy⟩ := Compilation.readOnce_withSession h hview p
    simp only [run, hread]
    exact ih _ (Compilation.quiet_readOnce h p) hy
  | askHost identifier prev next ih =>
    simp only [run, Compilation.ask]
    rcases hasked : s.host.ask identifier prev s.state with ⟨e | r, state⟩ <;> simp only [hasked]
    · exact ⟨x, rfl, hview⟩
    · exact ih r (s := { s with state }) h hview
  | mark file next ih =>
    obtain ⟨hfirst, hmarked⟩ := Session.mark_of_view_eq hview s.cwd file
    have hquiet : (s.session.mark s.cwd file).2.desk.Quiet := by
      rw [Session.desk_mark]
      exact h
    simp only [run, Compilation.mark, hfirst]
    exact ih _ (s := { s with session := (s.session.mark s.cwd file).2 }) hquiet hmarked
  | register token path next ih =>
    obtain ⟨hbound, hregistered, hevents⟩ := Session.register_of_view_eq hview token path
    have hquiet : (s.session.register token path).2.1.desk.Quiet := by
      rw [Session.desk_register]
      exact h
    simp only [run, Compilation.register, hbound, hevents]
    exact ih _ (s := ({ s with session := (s.session.register token path).2.1 } :
      Compilation σ).noteAll (s.session.register token path).2.2) hquiet hregistered
  | note e next ih => exact ih (s := s.noteAll [e]) h hview
  | pause next ih => exact ih h hview

/-! ### Plans that clear up behind them -/

/-- A plan that cannot fail: it only marks, registers and notes something before its result. -/
def Sure : Plan α → Prop
  | done _ => True
  | mark _ next => ∀ first, (next first).Sure
  | register _ _ next => ∀ bound, (next bound).Sure
  | note _ next => next.Sure
  | _ => False

/-- A plan that cannot fail any more once a read of it succeeded or it marked or registered
something. -/
def Tidy : Plan α → Prop
  | done _ | fail _ => True
  | isFile _ next => ∀ b, (next b).Tidy
  | lookup _ _ next => ∀ r, (next r).Tidy
  | read _ next => (∀ t, (next (.ok t)).Sure) ∧ ∀ e, (next (.error e)).Tidy
  | askHost _ _ next => ∀ r, (next r).Tidy
  | mark _ next => ∀ first, (next first).Sure
  | register _ _ next => ∀ bound, (next bound).Sure
  | note _ next => next.Tidy
  | pause next => next.Tidy

theorem Sure.exists_ok {p : Plan α} (hp : p.Sure) (s : Compilation σ) :
    ∃ a, (p.run s).1 = .ok a := by
  induction p generalizing s with
  | done a => exact ⟨a, rfl⟩
  | mark file next ih => exact ih _ (hp _) _
  | register token path next ih => exact ih _ (hp _) _
  | note e next ih => exact ih hp _
  | _ => exact hp.elim

theorem Sure.run_ne_error {p : Plan α} (hp : p.Sure) {s s' : Compilation σ} {e : Failure} :
    p.run s ≠ (.error e, s') := by
  obtain ⟨a, ha⟩ := hp.exists_ok s
  intro h
  rw [h] at ha
  cases ha

theorem Sure.bind {p : Plan α} {f : α → Plan β} (hp : p.Sure) (hf : ∀ a, (f a).Sure) :
    (p.bind f).Sure := by
  induction p with
  | done a => exact hf a
  | mark file next ih => exact fun first => ih first (hp first)
  | register token path next ih => exact fun bound => ih bound (hp bound)
  | note e next ih => exact ih hp
  | _ => exact hp.elim

theorem Sure.tidy {p : Plan α} (hp : p.Sure) : p.Tidy := by
  induction p with
  | done a => trivial
  | mark file next => exact hp
  | register token path next => exact hp
  | note e next ih => exact ih hp
  | _ => exact hp.elim

theorem Tidy.bind_sure {p : Plan α} {f : α → Plan β} (hp : p.Tidy) (hf : ∀ a, (f a).Sure) :
    (p.bind f).Tidy := by
  induction p with
  | done a => exact (hf a).tidy
  | fail e => trivial
  | isFile p next ih => exact fun b => ih b (hp b)
  | lookup name context next ih => exact fun r => ih r (hp r)
  | read p next ih => exact ⟨fun t => (hp.1 t).bind hf, fun e => ih _ (hp.2 e)⟩
  | askHost identifier prev next ih => exact fun r => ih r (hp r)
  | mark file next => exact fun first => (hp first).bind hf
  | register token path next => exact fun bound => (hp bound).bind hf
  | note e next ih => exact ih hp
  | pause next ih => exact ih hp

/-- A tidy plan that fails leaves the view of a quiet session as it was. -/
theorem Tidy.view_eq {p : Plan α} (hp : p.Tidy) {s s' : Compilation σ}
    (hquiet : s.session.desk.Quiet) {e : Failure} (h : p.run s = (.error e, s')) :
    s'.session.view = s.session.view := by
  induction p generalizing s with
  | done a => cases h
  | fail e =>
    obtain ⟨-, rfl⟩ := Prod.mk.inj h
    rfl
  | isFile p next ih => exact ih _ (hp _) hquiet h
  | lookup name context next ih =>
    simp only [run, Compilation.lookup] at h
    rcases hfound : s.host.lookup name context s.state with ⟨_ | r, state⟩ <;>
      simp only [hfound] at h
    · obtain ⟨-, rfl⟩ := Prod.mk.inj h
      rfl
    · exact ih r (hp r) (s := { s with state }) hquiet h
  | read p next ih =>
    rw [run] at h
    rcases Compilation.readOnce_cases hquiet p with ⟨t, -, hread⟩ | ⟨-, desk, hcache, hread⟩
    · rw [hread] at h
      exact absurd h (hp.1 t).run_ne_error
    · have hq := Compilation.quiet_readOnce hquiet p
      rw [hread] at h hq
      cases ho : (s.readAnew p).1 with
      | ok t =>
        simp only [ho] at h
        exact absurd h (hp.1 t).run_ne_error
      | error e' =>
        -- The read that failed is off the desk again, and the plan goes on as before.
        simp only [ho] at h
        rw [ho] at hcache
        exact (ih _ (hp.2 e') hq h).trans (Session.view_eq_iff.mpr ⟨hcache, rfl, rfl⟩)
  | askHost identifier prev next ih =>
    simp only [run, Compilation.ask] at h
    rcases hasked : s.host.ask identifier prev s.state with ⟨_ | r, state⟩ <;>
      simp only [hasked] at h
    · obtain ⟨-, rfl⟩ := Prod.mk.inj h
      rfl
    · exact ih r (hp r) (s := { s with state }) hquiet h
  | mark file next => exact absurd h (hp _).run_ne_error
  | register token path next => exact absurd h (hp _).run_ne_error
  | note e next ih => exact ih hp (s := s.noteAll [e]) hquiet h
  | pause next ih => exact ih hp hquiet h

end Plan

theorem Session.Reached.quiet {s : Session} (h : s.Reached) : s.desk.Quiet := by
  induction h with
  | fresh => intro e he; cases he
  | run p s _ ih => exact p.quiet_run ih

/-! ### Imports are tidy -/

namespace Importer

open Plan

variable (i : Importer)

theorem sure_importOnce (r : Resolved) : (i.importOnce r).Sure := by
  intro first
  dsimp only
  split <;> trivial

theorem inherited_tidy : i.Inherited Tidy where
  fail _ := trivial
  isFile h := h
  lookup h := h
  read htext herror := by
    refine ⟨fun t => ?_, herror⟩
    obtain ⟨event, r, hr⟩ := htext t
    rw [hr]
    exact i.sure_importOnce r
  askHost hanswer hnone := by
    rintro (_ | r)
    · exact hnone
    · obtain ⟨event, hr⟩ := hanswer r
      rw [hr]
      trivial
  note h := h
  pause h := h

theorem tidy_resolve (identifier prev : Text) : (i.resolve identifier prev).Tidy := by
  unfold resolve
  split
  · -- A registration binds its token first of all, and nothing can fail after that.
    have hbind : ∀ token path, (i.bindToken token path).Tidy :=
      fun token path bound => i.sure_importOnce (registration token bound)
    unfold resolveToken
    split
    · exact hbind _ _
    · exact fun _ => hbind _ _
  · exact (i.inherited_tidy.resolveModule identifier prev).bind_sure fun r => trivial

/-- **A failing import leaves no trace.**  If an import fails, in whatever way, then the reads on
the desk, the files that are marked and the tokens that are bound, each in its order, are what they
were before it; and whatever is run next, with whatever surroundings by then, has the result, the
effect on them and the session afterwards that it would have had without the import. -/
theorem run_resolve_error {σ : Type} (identifier prev : Text) {s s' : Compilation σ}
    (hs : s.session.Reached) {e : Failure}
    (h : (i.resolve identifier prev).run s = (.error e, s')) :
    s'.session.view = s.session.view ∧
      ∀ {τ α : Type} (p : Plan α) (t : Compilation τ),
        let after := p.run { t with session := s'.session }
        let without := p.run { t with session := s.session }
        after.1 = without.1 ∧ after.2.state = without.2.state ∧
          after.2.session.view = without.2.session.view := by
  have hview := (i.tidy_resolve identifier prev).view_eq hs.quiet h
  refine ⟨hview, fun p t => ?_⟩
  obtain ⟨y, hrun, hy⟩ := p.run_withSession (s := { t with session := s.session }) hs.quiet hview
  simp only at hrun ⊢
  rw [hrun]
  exact ⟨rfl, rfl, hy⟩

/-- Every candidate is gone by the time it is read; what was imported before is still there, and
once the files are back the import succeeds. -/
theorem run_resolve_error_vanished :
    let i : Importer := ⟨['/'], { root := ['/'], extensions := [['.', 'c']] }, true⟩
    let host : Host Bool :=
      { isFile := fun _ _ => true
        lookup := fun _ _ there => (.ok none, there)
        read := fun _ there =>
          (if there then .ok ['x'] else .error (.system { code := 2, reason := [] }), there)
        ask := fun _ _ there => (.ok none, there)
        note := fun _ there => there }
    let before := ((i.resolve ['a'] ['/', 'p']).run ⟨['/'], host, {}, true⟩).2.session
    let failed := (i.resolve ['b'] ['/', 'p']).run ⟨['/'], host, before, false⟩
    let again := (i.resolve ['b'] ['/', 'p']).run ⟨['/'], host, failed.2.session, true⟩
    failed.1.isOk = false ∧
      failed.2.session.view = ⟨[(['/', 'a'], some (.ok ['x']))], [['/', 'a']], []⟩ ∧
      again.1 = .ok { contents := ['x'], file := ['/', 'b'] } := by
  intro i host before failed again
  have hreached : before.Reached := .run _ _ .fresh
  have hfails : failed.1.isOk = false := by decide +kernel
  have hbefore : before.view = ⟨[(['/', 'a'], some (.ok ['x']))], [['/', 'a']], []⟩ := by
    decide +kernel
  have hthere : ((i.resolve ['b'] ['/', 'p']).run ⟨['/'], host, before, true⟩).1
      = .ok { contents := ['x'], file := ['/', 'b'] } := by
    decide +kernel
  -- From here on the session is any that was reached.
  clear_value before
  obtain ⟨e, s', hrun⟩ : ∃ e s', failed = (.error e, s') := by
    rcases hfirst : failed with ⟨e | r, s'⟩
    · exact ⟨e, s', rfl⟩
    · rw [hfirst] at hfails
      cases hfails
  obtain ⟨hview, hlater⟩ := i.run_resolve_error ['b'] ['/', 'p']
    (s := ⟨['/'], host, before, false⟩) hreached hrun
  have hagain := (hlater (i.resolve ['b'] ['/', 'p']) ⟨['/'], host, before, true⟩).1
  refine ⟨hfails, ?_, ?_⟩
  · rw [hrun]
    exact hview.trans hbefore
  · simp only [again, hrun]
    exact hagain.trans hthere

end Importer

end StyleImport
