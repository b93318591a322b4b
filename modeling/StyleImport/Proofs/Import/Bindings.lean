/-
A token is bound once, and everyone is told the same path.

Imports take turns on one session, some of them registrations, and the host registers paths of its
own in between.  `BindingRun` is such a session with the paths that were offered for tokens so far.

* `Query.answer_absolutePath_of_bound`, `Query.answer_absolutePath_of_unbound` — what a query for a
  path below a token answers;
* `BindingRun.map_turn` — the runs are those of the imports' own tasks;
* `BindingRun.Sound` — the invariant: tokens are bound to the paths that were offered first, and
  registrations have told so;
* `BindingRun.bound_to_first_offer` — what holds of every run, and what queries make of it.
-/
import StyleImport.Proofs.Import.ReadDesk
import StyleImport.Proofs.Import.Registering
import StyleImport.Query

namespace StyleImport

/-! ### Queries -/

namespace Query

variable {c : QueryContext} {token : Text}

/-- A query for a path below a bound token does not look at the stylesheet's map. -/
theorem answer_absolutePath_of_bound {bound : Text} (h : c.session.bound? token = some bound)
    (registered : Option Value) (isQuoted : Bool) (segments : List Value) :
    answer c registered .absolutePath (.string token isQuoted :: segments)
      = asValue ((segments.mapM Value.requireString).map fun parts =>
          .quoted (Path.absolute c.disk.cwdPath (Path.joinAll bound parts))) := by
  have hdir : registeredDirectory c registered token = .ok (some bound) := by
    rw [registeredDirectory, h]
  change asValue ((registeredDirectory c registered token).bind _) = _
  rw [hdir]
  cases segments.mapM Value.requireString <;> rfl

/-- A query for a path below a token that is not bound depends on what the stylesheet's map has for
it. -/
theorem answer_absolutePath_of_unbound (h : c.session.bound? token = none)
    (registered : Option Value) (isQuoted : Bool) (segments : List Value) :
    answer c registered .absolutePath (.string token isQuoted :: segments)
      = match registered.bind (Value.get? token) with
        | none => .ok (.error ("No path is registered for " ++ token) none)
        | some v => asValue (v.requireString.bind fun dir =>
            (segments.mapM Value.requireString).map fun parts =>
              .quoted (Path.absolute c.disk.cwdPath (Path.joinAll dir parts))) := by
  change asValue ((registeredDirectory c registered token).bind _) = _
  cases hv : registered.bind (Value.get? token) with
  | none =>
    have hdir : registeredDirectory c registered token = .ok none := by
      simp only [registeredDirectory, h, hv]
    rw [hdir]
    rfl
  | some v =>
    have hdir : registeredDirectory c registered token = v.requireString.map some := by
      simp only [registeredDirectory, h, hv]
    rw [hdir]
    dsimp only
    cases v.requireString with
    | error e => rfl
    | ok dir => cases segments.mapM Value.requireString <;> rfl

end Query

/-! ### Runs -/

/-- A compilation in the middle of its imports. -/
structure BindingRun (σ : Type) where
  /-- What the imports share. -/
  compilation : Compilation σ
  /-- Everyone who asked for an import so far. -/
  calls : List (Request × Task Resolved) := []
  /-- The paths that were offered for tokens so far. -/
  offers : List (Text × Text) := []

/-- What can happen next. -/
inductive BindingStep (σ : Type) where
  /-- Someone asks for an import. -/
  | call (q : Request)
  /-- A call has its turn. -/
  | turn (k : Nat)
  /-- The read that a call waits for ends. -/
  | readEnds (k : Nat)
  /-- Something happens to the files, to the registry or to the host. -/
  | change (f : σ → σ)
  /-- The host registers a path of its own. -/
  | register (token path : Text)

namespace BindingRun

variable {σ : Type}

/-- The run after a turn of a call; one that is over has no more turns.  A registration makes its
offer on its turn. -/
def turn (r : BindingRun σ) (k : Nat) : BindingRun σ :=
  match r.calls[k]? with
  | none | some (_, .finished _) => r
  | some (q, task) =>
    let after := task.step r.compilation
    let isFile := r.compilation.host.isFile r.compilation.state
    { compilation := after.2
      calls := r.calls.set k (q, after.1)
      offers := r.offers ++ (q.offer r.compilation.cwd isFile).toList }

/-- The run after the end of the read that a call waits for. -/
def readEnds (r : BindingRun σ) (k : Nat) : BindingRun σ :=
  match r.calls[k]? with
  | some (_, .waiting p ticket _) =>
    { r with compilation := (r.compilation.complete p ticket).2 }
  | _ => r

/-- One step of a run. -/
def step (r : BindingRun σ) : BindingStep σ → BindingRun σ
  | .call q => { r with calls := r.calls ++ [(q, .ready (q.plan r.compilation.cwd))] }
  | .turn k => r.turn k
  | .readEnds k => r.readEnds k
  | .change f => { r with compilation := { r.compilation with state := f r.compilation.state } }
  | .register token path =>
    { r with
      compilation := (r.compilation.register token path).2
      offers := r.offers ++ [(token, path)] }

/-- A run of any length, in any order. -/
def steps (r : BindingRun σ) (ss : List (BindingStep σ)) : BindingRun σ := ss.foldl step r

/-- The run before the first import, on a fresh session. -/
def start (cwd : Text) (host : Host σ) (state : σ) : BindingRun σ :=
  { compilation := { cwd, host, session := {}, state } }

/-- A turn is a turn of the tasks. -/
theorem map_turn (r : BindingRun σ) (k : Nat) :
    ((r.turn k).calls.map Prod.snd, (r.turn k).compilation)
      = Task.stepAt (r.calls.map Prod.snd) r.compilation k := by
  unfold turn Task.stepAt
  rw [List.getElem?_map]
  rcases hk : r.calls[k]? with _ | ⟨q, task⟩
  · rfl
  · cases task with
    | ready plan => simp only [Option.map_some, List.map_set]
    | waiting p n next => simp only [Option.map_some, List.map_set]
    | finished result =>
      -- Here a task that is over is left alone, there it is replaced by itself.
      obtain ⟨hlt, hget⟩ := List.getElem?_eq_some_iff.mp hk
      have hset : (r.calls.map Prod.snd).set k (.finished result) = r.calls.map Prod.snd := by
        have hset := List.set_getElem_self hlt
        rw [hget] at hset
        rw [← List.map_set (f := Prod.snd) (a := (q, Task.finished result)), hset]
      exact Prod.ext hset.symm rfl

/-! ### The invariant of runs -/

/-- What a call has come to, in a session. -/
def Tells (cwd : Text) (s : Session) (q : Request) (t : Task Resolved) : Prop :=
  match Registration.token? q.identifier with
  | none => t.BindsNothing
  | some token => t = .ready (q.plan cwd) ∨
      ∃ bound x, s.bound? token = some bound ∧ t = .finished (.ok x) ∧
        x.file = Registration.file token bound ∧ x.contents = Registration.source token bound

/-- What holds after every step. -/
structure Sound (cwd : Text) (r : BindingRun σ) : Prop where
  /-- The working directory stays. -/
  cwd_eq : r.compilation.cwd = cwd
  /-- Tokens are bound to the paths that were offered first. -/
  keepsFirst : KeepsFirst r.compilation.session.bindings r.offers
  /-- Registrations tell what their tokens are bound to. -/
  tells : ∀ {k : Nat} {q : Request} {t : Task Resolved}, r.calls[k]? = some (q, t) →
    Tells cwd r.compilation.session q t

theorem Tells.mono {cwd : Text} {s s' : Session} {q : Request} {t : Task Resolved}
    (h : Tells cwd s q t)
    (hstays : ∀ {token path}, s.bound? token = some path → s'.bound? token = some path) :
    Tells cwd s' q t := by
  unfold Tells at h ⊢
  split
  · rename_i hnone
    rwa [hnone] at h
  · rename_i token hsome
    rw [hsome] at h
    rcases h with h | ⟨bound, x, hbound, h⟩
    · exact .inl h
    · exact .inr ⟨bound, x, hstays hbound, h⟩

variable {cwd : Text} {r : BindingRun σ}

theorem sound_start (cwd : Text) (host : Host σ) (state : σ) :
    (start cwd host state).Sound cwd where
  cwd_eq := rfl
  keepsFirst := KeepsFirst.empty
  tells h := by simp [start] at h

/-- More paths are offered, and the bindings keep up with them. -/
theorem Sound.of_offers (h : r.Sound cwd) {s : Compilation σ} {more : List (Text × Text)}
    (hcwd : s.cwd = r.compilation.cwd) (hkeeps : KeepsFirst s.session.bindings (r.offers ++ more)) :
    ({ r with compilation := s, offers := r.offers ++ more } : BindingRun σ).Sound cwd where
  cwd_eq := hcwd.trans h.cwd_eq
  keepsFirst := hkeeps
  tells hk := (h.tells hk).mono (h.keepsFirst.stays hkeeps (List.prefix_append _ _))

/-- The bindings stay as they are. -/
theorem Sound.of_same (h : r.Sound cwd) {s : Compilation σ} (hcwd : s.cwd = r.compilation.cwd)
    (hbindings : s.session.bindings = r.compilation.session.bindings) :
    ({ r with compilation := s } : BindingRun σ).Sound cwd := by
  have hkeeps : KeepsFirst s.session.bindings (r.offers ++ []) := by
    rw [hbindings, List.append_nil]
    exact h.keepsFirst
  have hsame := h.of_offers hcwd hkeeps
  rwa [List.append_nil] at hsame

/-- A call comes to something else. -/
theorem Sound.set (h : r.Sound cwd) (k : Nat) {q : Request} {t : Task Resolved}
    (ht : Tells cwd r.compilation.session q t) :
    ({ r with calls := r.calls.set k (q, t) } : BindingRun σ).Sound cwd where
  cwd_eq := h.cwd_eq
  keepsFirst := h.keepsFirst
  tells {j q' t'} hj := by
    rw [List.getElem?_set] at hj
    split at hj
    · split at hj
      · obtain ⟨rfl, rfl⟩ : q = q' ∧ t = t' := by simpa using hj
        exact ht
      · cases hj
    · exact h.tells hj

theorem Sound.call (h : r.Sound cwd) (q : Request) : (r.step (.call q)).Sound cwd where
  cwd_eq := h.cwd_eq
  keepsFirst := h.keepsFirst
  tells {k q' t} hk := by
    rcases ReadDesk.getElem?_concat.mp hk with hk | ⟨_, heq⟩
    · exact h.tells hk
    · obtain ⟨rfl, rfl⟩ := Prod.mk.inj heq
      unfold Tells
      split
      · rename_i hnone
        exact Request.bindsNothing_plan hnone _
      · rw [h.cwd_eq]
        exact .inl rfl

theorem Sound.register (h : r.Sound cwd) (token path : Text) :
    (r.step (.register token path)).Sound cwd := by
  refine h.of_offers rfl ?_
  have hbindings := r.compilation.session.bindings_register token path
  show KeepsFirst (r.compilation.session.register token path).2.1.bindings _
  rw [hbindings]
  exact h.keepsFirst.register token path

theorem Sound.readEnds (h : r.Sound cwd) (k : Nat) : (r.step (.readEnds k)).Sound cwd := by
  show (r.readEnds k).Sound cwd
  unfold BindingRun.readEnds
  split
  · rename_i p n next hk
    obtain ⟨hcwd, hbindings⟩ := r.compilation.complete_binds_nothing p n
    exact h.of_same hcwd hbindings
  · exact h

/-- The turn of a call that is no registration. -/
theorem Sound.turn_of_none (h : r.Sound cwd) (k : Nat) {q : Request} {t : Task Resolved}
    (hnone : Registration.token? q.identifier = none) (ht : t.BindsNothing) :
    ({ r with
       compilation := (t.step r.compilation).2
       calls := r.calls.set k (q, (t.step r.compilation).1) } : BindingRun σ).Sound cwd := by
  obtain ⟨htask, hcwd, hbindings⟩ := Task.bindsNothing_step ht r.compilation
  refine (h.of_same hcwd hbindings).set k ?_
  unfold Tells
  rw [hnone]
  exact htask

/-- The turn of a registration. -/
theorem Sound.turn_of_some (h : r.Sound cwd) (hnormal : Path.absolute cwd Path.here = cwd) (k : Nat)
    {q : Request} {token : Text} (htoken : Registration.token? q.identifier = some token) :
    let path := q.path cwd (r.compilation.host.isFile r.compilation.state) token
    let after := (q.plan cwd).advance r.compilation
    ({ compilation := after.2
       calls := r.calls.set k (q, after.1)
       offers := r.offers ++ [(token, path)] } : BindingRun σ).Sound cwd := by
  intro path after
  obtain rfl := h.cwd_eq
  obtain ⟨x, s', hturn, hfile, hcontents, hcwd, hbindings⟩ := Request.advance_plan htoken hnormal
  have hafter : after = (.finished (.ok x), s') := hturn
  rw [hafter]
  have hoffered : ({ r with compilation := s', offers := r.offers ++ [(token, path)] } :
      BindingRun σ).Sound r.compilation.cwd := by
    refine h.of_offers hcwd ?_
    rw [hbindings, Session.bindings_register]
    exact h.keepsFirst.register token path
  refine hoffered.set k ?_
  unfold Tells
  rw [htoken]
  refine .inr ⟨_, x, ?_, rfl, hfile, hcontents⟩
  show Entries.get? token s'.session.bindings = _
  rw [hbindings]
  exact Session.bound?_register_self _ token path

theorem Sound.turn (h : r.Sound cwd) (hnormal : Path.absolute cwd Path.here = cwd) (k : Nat) :
    (r.step (.turn k)).Sound cwd := by
  show (r.turn k).Sound cwd
  unfold BindingRun.turn
  split
  · exact h
  · exact h
  · rename_i q t hnot hk
    have htells := h.tells hk
    unfold Tells at htells
    dsimp only
    cases htoken : Registration.token? q.identifier with
    | none =>
      rw [htoken] at htells
      rw [Request.offer, htoken, Option.map_none, Option.toList_none, List.append_nil]
      exact h.turn_of_none k htoken htells
    | some token =>
      rw [htoken] at htells
      rcases htells with rfl | ⟨_, x, _, rfl, _⟩
      · rw [Request.offer, htoken, Option.map_some, Option.toList_some, h.cwd_eq]
        exact h.turn_of_some hnormal k htoken
      · exact absurd rfl (hnot _)

theorem Sound.step (h : r.Sound cwd) (hnormal : Path.absolute cwd Path.here = cwd)
    (s : BindingStep σ) : (r.step s).Sound cwd := by
  cases s with
  | call q => exact h.call q
  | turn k => exact h.turn hnormal k
  | readEnds k => exact h.readEnds k
  | change f => exact h.of_same rfl rfl
  | register token path => exact h.register token path

theorem Sound.steps (h : r.Sound cwd) (hnormal : Path.absolute cwd Path.here = cwd)
    (ss : List (BindingStep σ)) : (r.steps ss).Sound cwd := by
  induction ss generalizing r with
  | nil => exact h
  | cons s ss ih => exact ih (h.step hnormal s)

/-- Offers are never taken back. -/
theorem offers_steps (r : BindingRun σ) (ss : List (BindingStep σ)) :
    r.offers <+: (r.steps ss).offers := by
  have hstep : ∀ (r : BindingRun σ) s, r.offers <+: (r.step s).offers := by
    intro r s
    cases s with
    | call q => exact List.prefix_rfl
    | turn k =>
      show r.offers <+: (r.turn k).offers
      unfold turn
      split
      · exact List.prefix_rfl
      · exact List.prefix_rfl
      · exact List.prefix_append _ _
    | readEnds k =>
      show r.offers <+: (r.readEnds k).offers
      unfold readEnds
      split <;> exact List.prefix_rfl
    | change f => exact List.prefix_rfl
    | register token path => exact List.prefix_append _ _
  induction ss generalizing r with
  | nil => exact List.prefix_rfl
  | cons s ss ih => exact (hstep r s).trans (ih (r.step s))

/-! ### What holds of every run -/

/-- **A token is bound once, and everyone is told the same path.**  In every run of imports that
share a session, with calls at any time, turns in any order, paths that the host registers of its
own, and files that change between the steps:

* a token is bound to the path that was offered for it first, if any was, and tokens are listed in
  the order in which they were first offered;
* what is bound stays bound to the same path, whatever happens next;
* a registration that is over has a result, whose name and contents are those for the path that its
  token is bound to;
* a query for a path below a token that is bound starts from that path, whatever the map that the
  stylesheet passes;
* a query for a path below any other token starts from what that map has for it. -/
theorem bound_to_first_offer {cwd : Text} (hcwd : Path.isAbsolute cwd = true)
    (hnormal : Path.normalize cwd = cwd) (host : Host σ) (state : σ) (ss : List (BindingStep σ)) :
    let r := steps (start cwd host state) ss
    let s := r.compilation.session
    (∀ token, s.bound? token = Entries.get? token r.offers) ∧
    Entries.keys s.bindings = Sandbox.firstCopies (Entries.keys r.offers) ∧
    (∀ token path, s.bound? token = some path →
      ∀ more, (r.steps more).compilation.session.bound? token = some path) ∧
    (∀ (k : Nat) (q : Request) token result, Registration.token? q.identifier = some token →
      r.calls[k]? = some (q, .finished result) →
      ∃ path x, s.bound? token = some path ∧ result = .ok x ∧
        x.file = Registration.file token path ∧ x.contents = Registration.source token path) ∧
    ∀ (d : Disk) (sandbox : Sandbox) (registered : Option Value) token isQuoted
        (segments : List Value),
      let answer := Query.answer ⟨d, sandbox, s⟩ registered .absolutePath
        (.string token isQuoted :: segments)
      let below := fun dir => (segments.mapM Value.requireString).map fun parts =>
        Value.quoted (Path.absolute d.cwdPath (Path.joinAll dir parts))
      (∀ path, s.bound? token = some path → answer = Query.asValue (below path)) ∧
      (s.bound? token = none →
        (∀ v, registered.bind (Value.get? token) = some v →
          answer = Query.asValue (v.requireString.bind below)) ∧
        (registered.bind (Value.get? token) = none →
          answer = .ok (.error ("No path is registered for " ++ token) none))) := by
  intro r s
  have hhere : Path.absolute cwd Path.here = cwd := (Path.absolute_here hcwd).trans hnormal
  have h : r.Sound cwd := (sound_start cwd host state).steps hhere ss
  refine ⟨h.keepsFirst.get?_eq, h.keepsFirst.keys_eq, ?_, ?_, ?_⟩
  · intro token path hbound more
    exact h.keepsFirst.stays (h.steps hhere more).keepsFirst (r.offers_steps more) hbound
  · intro k q token result htoken hk
    have htells := h.tells hk
    unfold Tells at htells
    rw [htoken] at htells
    rcases htells with hready | ⟨path, x, hbound, hover, hx⟩
    · cases hready
    · exact ⟨path, x, hbound, Task.finished.inj hover, hx⟩
  · intro d sandbox registered token isQuoted segments answer below
    let c : QueryContext := ⟨d, sandbox, s⟩
    refine ⟨fun path hbound => ?_, fun hunbound => ?_⟩
    · exact Query.answer_absolutePath_of_bound hbound registered isQuoted segments
    · have hanswer : answer = _ :=
        Query.answer_absolutePath_of_unbound (c := c) hunbound registered isQuoted segments
      refine ⟨fun v hv => ?_, fun hnone => ?_⟩
      · rwa [hv] at hanswer
      · rwa [hnone] at hanswer

/-- Two files register their directories for one token, the second file first, and then the host
registers a third one. -/
theorem bound_to_first_offer_of_race :
    let host : Host Unit :=
      { isFile := fun _ _ => true, lookup := fun _ _ s => (.ok none, s)
        read := fun _ s => (.ok [], s), ask := fun _ _ s => (.ok none, s), note := fun _ s => s }
    let request := fun prev : Text =>
      (⟨{ root := ['/'] }, false, false, ['f', 's', '(', 'a', 'b', ')'], prev⟩ : Request)
    let r := steps (start ['/'] host ()) [.call (request ['/', 'x', '/', 'f']),
      .call (request ['/', 'y', '/', 'f']), .turn 1, .turn 0, .register ['a', 'b'] ['/', 'z']]
    r.offers = [(['a', 'b'], ['/', 'y']), (['a', 'b'], ['/', 'x']), (['a', 'b'], ['/', 'z'])] ∧
      r.compilation.session.bound? ['a', 'b'] = some ['/', 'y'] ∧
      Entries.keys r.compilation.session.bindings = [['a', 'b']] := by
  intro host request r
  have hoffers : r.offers
      = [(['a', 'b'], ['/', 'y']), (['a', 'b'], ['/', 'x']), (['a', 'b'], ['/', 'z'])] := by
    simp only [r, request, host]
    decide +kernel
  have hcwd : Path.isAbsolute ['/'] = true := rfl
  obtain ⟨hbound, hkeys, -⟩ := bound_to_first_offer hcwd (by decide) host () [
    .call (request ['/', 'x', '/', 'f']), .call (request ['/', 'y', '/', 'f']), .turn 1, .turn 0,
    .register ['a', 'b'] ['/', 'z']]
  refine ⟨hoffers, ?_, ?_⟩
  · rw [hbound, hoffers]
    decide
  · rw [hkeys, hoffers]
    decide

end BindingRun

end StyleImport
