/-
While nothing changes, a session makes no difference to what its imports yield.

`Answers` are answers to the questions of plans that depend on nothing but the question.  Where the
host gives such answers, and goes on giving them, the texts that others read, the reads that others
share and the failures that they left are all what an import on its own would have found.

* `World.host_gives` — a world that does not change gives such answers;
* `Plan.ComesTo` — what a plan comes to by these answers, whatever is marked as imported by then;
* `Importer.exists_comesTo` — every import that is no registration comes to something;
* `Compilation.Serves` — a compilation whose desk holds the outcomes of the answers;
* `Task.turned_step` — it stays one on every turn, and what a task comes to stays the same;
* `BindingRun.same_as_alone` — so all calls of a run yield what they yield on a fresh session.
-/
import StyleImport.Import.World
import StyleImport.Proofs.Import.Bindings
import StyleImport.Proofs.Import.NoTrace
import StyleImport.Proofs.Import.Turn

namespace StyleImport

/-! ### Answers that stay the same -/

/-- Answers to the questions of plans. -/
structure Answers where
  /-- Whether a path leads to a file. -/
  isFile : Text → Bool
  /-- The record of a module, seen from a place. -/
  lookup : Text → Text → Except Failure (Option ModuleRecord)
  /-- What comes of reading a path. -/
  read : Text → ReadOutcome
  /-- The answer of the host's own resolver, or the message of its failure. -/
  ask : Text → Text → Except Text (Option Resolved)

/-- A host that gives these answers in every good state, and stays in one. -/
structure Host.Gives {σ : Type} (host : Host σ) (w : Answers) (good : σ → Prop) : Prop where
  isFile : ∀ {state}, good state → ∀ path, host.isFile state path = w.isFile path
  lookup : ∀ {state}, good state → ∀ name context,
    (host.lookup name context state).1 = w.lookup name context ∧
      good (host.lookup name context state).2
  read : ∀ {state}, good state → ∀ path,
    (host.read path state).1 = w.read path ∧ good (host.read path state).2
  ask : ∀ {state}, good state → ∀ identifier prev,
    (host.ask identifier prev state).1 = w.ask identifier prev ∧
      good (host.ask identifier prev state).2
  note : ∀ {state}, good state → ∀ e, good (host.note e state)

/-- A world without a reader of the host, whose registry never changes, gives the answers that it
gave at first. -/
theorem World.host_gives {w₀ : World} (hreader : w₀.reader = [])
    (hregistry : ∀ name context, (w₀.registry.lookup w₀.disk name context).2.1 = w₀.registry) :
    World.host.Gives
      { isFile := w₀.disk.isFile
        lookup := fun name context => (w₀.lookup name context).1
        read := fun path => (w₀.readPath path).1
        ask := fun identifier prev => (w₀.ask identifier prev).1 }
      fun w => w.disk = w₀.disk ∧ w.registry = w₀.registry ∧ w.resolver = w₀.resolver ∧
        w.reader = [] where
  isFile h path := congrArg (Disk.isFile · path) h.1
  lookup {w} h name context := by
    obtain ⟨hdisk, hreg, hres, hread⟩ := h
    have hsame := hregistry name context
    simp only [World.host, World.lookup, hdisk, hreg]
    exact ⟨trivial, trivial, hsame, hres, hread⟩
  read {w} h path := by
    obtain ⟨hdisk, hreg, hres, hread⟩ := h
    simp only [World.host, World.readPath, hread, hreader, hdisk]
    exact ⟨rfl, rfl, hreg, hres, rfl⟩
  ask {w} h identifier prev := by
    obtain ⟨hdisk, hreg, hres, hread⟩ := h
    simp only [World.host, World.ask, hres]
    cases hanswers : w₀.resolver with
    | none => exact ⟨rfl, hdisk, hreg, hres.trans hanswers, hread⟩
    | some answers =>
      rcases hfound : Entries.get? identifier answers with _ | (r | message) <;>
        simp only [hfound] <;> exact ⟨trivial, hdisk, hreg, trivial, hread⟩
  note h _ := h

/-! ### What a plan comes to -/

/-- An import, without what it says of imports before it. -/
def Resolved.unmarked (r : Resolved) : Resolved := { r with alreadyImported := false }

namespace Plan

variable {w : Answers} {cwd : Text} {x : Except Failure Resolved}

/-- What a plan comes to by the answers of `w`, whichever files are marked.  A registration comes to
nothing, since its result depends on what is bound. -/
def ComesTo (w : Answers) (cwd : Text) (x : Except Failure Resolved) : Plan Resolved → Prop
  | done r => .ok r.unmarked = x
  | fail e => .error e = x
  | isFile path next => (next (w.isFile path)).ComesTo w cwd x
  | lookup name context next =>
    match w.lookup name context with
    | .ok r => (next r).ComesTo w cwd x
    | .error e => .error e = x
  | read path next => (next (w.read (Path.absolute cwd path))).ComesTo w cwd x
  | askHost identifier prev next =>
    match w.ask identifier prev with
    | .ok r => (next r).ComesTo w cwd x
    | .error message => .error (.host message) = x
  | mark _ next => ∀ first, (next first).ComesTo w cwd x
  | register .. => False
  | note _ next => next.ComesTo w cwd x
  | pause next => next.ComesTo w cwd x

theorem ComesTo.lookup_mono {name context : Text} {f g : Option ModuleRecord → Plan Resolved}
    (h : (lookup name context f).ComesTo w cwd x)
    (hfg : ∀ r, (f r).ComesTo w cwd x → (g r).ComesTo w cwd x) :
    (lookup name context g).ComesTo w cwd x := by
  simp only [ComesTo] at h ⊢
  cases hfound : w.lookup name context with
  | error e => rwa [hfound] at h
  | ok r =>
    rw [hfound] at h
    exact hfg r h

theorem ComesTo.askHost_mono {identifier prev : Text} {f g : Option Resolved → Plan Resolved}
    (h : (askHost identifier prev f).ComesTo w cwd x)
    (hfg : ∀ r, (f r).ComesTo w cwd x → (g r).ComesTo w cwd x) :
    (askHost identifier prev g).ComesTo w cwd x := by
  simp only [ComesTo] at h ⊢
  cases hasked : w.ask identifier prev with
  | error message => rwa [hasked] at h
  | ok r =>
    rw [hasked] at h
    exact hfg r h

theorem ComesTo.bind_note {p : Plan Resolved} (hp : p.ComesTo w cwd x) (event : Event) :
    (p.bind fun r => .note event (.done r)).ComesTo w cwd x := by
  induction p with
  | done | fail => exact hp
  | isFile path next ih => exact ih _ hp
  | lookup name context next ih => exact hp.lookup_mono ih
  | read path next ih => exact ih _ hp
  | askHost identifier prev next ih => exact hp.askHost_mono ih
  | mark file next ih => exact fun first => ih first (hp first)
  | register token path next => exact hp.elim
  | note e next ih => exact ih hp
  | pause next ih => exact ih hp

theorem ComesTo.unhurried {p : Plan Resolved} (hp : p.ComesTo w cwd x) :
    p.unhurried.ComesTo w cwd x := by
  induction p with
  | done | fail => exact hp
  | isFile path next ih => exact ih _ hp
  | lookup name context next ih => exact hp.lookup_mono ih
  | read path next ih => exact ih _ hp
  | askHost identifier prev next ih => exact hp.askHost_mono ih
  | mark file next ih => exact fun first => ih first (hp first)
  | register token path next => exact hp.elim
  | note e next ih => exact ih hp
  | pause next ih => exact ih hp

end Plan

namespace Importer

variable (i : Importer) (w : Answers)

theorem inherited_comesTo (cwd : Text) : i.Inherited fun p => ∃ x, p.ComesTo w cwd x where
  fail e := ⟨_, rfl⟩
  isFile h := h _
  lookup {name context next} h := by
    simp only [Plan.ComesTo]
    cases w.lookup name context with
    | error e => exact ⟨_, rfl⟩
    | ok r => exact h r
  read {path next} htext herror := by
    simp only [Plan.ComesTo]
    cases w.read (Path.absolute cwd path) with
    | error e => exact herror e
    | ok t =>
      obtain ⟨event, r, hr⟩ := htext t
      rw [hr]
      refine ⟨.ok r.unmarked, fun first => ?_⟩
      dsimp only
      split <;> rfl
  askHost {identifier prev next} hanswer hnone := by
    simp only [Plan.ComesTo]
    rcases w.ask identifier prev with e | _ | r
    · exact ⟨_, rfl⟩
    · exact hnone
    · obtain ⟨event, hr⟩ := hanswer r
      dsimp only
      rw [hr]
      exact ⟨_, rfl⟩
  note h := h
  pause h := h

theorem exists_comesTo (cwd : Text) {identifier : Text}
    (h : Registration.token? identifier = none) (prev : Text) :
    ∃ x, (i.resolve identifier prev).ComesTo w cwd x := by
  obtain ⟨x, hx⟩ := (i.inherited_comesTo w cwd).resolveModule identifier prev
  refine ⟨x, ?_⟩
  unfold resolve
  rw [h]
  exact hx.bind_note _

end Importer

/-! ### A session whose reads had the outcomes of the answers -/

section

variable {σ : Type} {host : Host σ} {w : Answers} {good : σ → Prop} {cwd : Text}

/-- A compilation whose host gives the answers, and whose desk holds no other outcomes. -/
structure Compilation.Serves (host : Host σ) (w : Answers) (good : σ → Prop) (cwd : Text)
    (reads : List Text) (s : Compilation σ) : Prop where
  cwd_eq : s.cwd = cwd
  host_eq : s.host = host
  good : good s.state
  inOrder : s.session.desk.InOrder reads
  outcome : ∀ {n k o}, reads[n]? = some k → s.session.desk.outcome? n = some o → w.read k = o

namespace Compilation.Serves

variable {reads : List Text} {s : Compilation σ}

theorem fresh {state : σ} (h : good state) : Serves host w good cwd [] ⟨cwd, host, {}, state⟩ where
  cwd_eq := rfl
  host_eq := rfl
  good := h
  inOrder := ReadDesk.inOrder_empty
  outcome h := by simp at h

theorem withState (h : s.Serves host w good cwd reads) {state : σ} (hstate : good state) :
    ({ s with state } : Compilation σ).Serves host w good cwd reads :=
  ⟨h.cwd_eq, h.host_eq, hstate, h.inOrder, h.outcome⟩

theorem withSession (h : s.Serves host w good cwd reads) {session : Session}
    (hdesk : session.desk = s.session.desk) :
    ({ s with session } : Compilation σ).Serves host w good cwd reads :=
  ⟨h.cwd_eq, h.host_eq, h.good, hdesk ▸ h.inOrder, hdesk ▸ h.outcome⟩

variable (hgives : host.Gives w good)
include hgives

theorem noteAll (h : s.Serves host w good cwd reads) (events : List Event) :
    (s.noteAll events).Serves host w good cwd reads := by
  refine h.withState ?_
  rw [h.host_eq]
  have hfold : ∀ state, good state → good (events.foldl (fun st e => host.note e st) state) := by
    induction events with
    | nil => exact fun _ hstate => hstate
    | cons e events ih => exact fun state hstate => ih _ (hgives.note hstate e)
  exact hfold _ h.good

theorem lookup (h : s.Serves host w good cwd reads) (name context : Text) :
    (s.lookup name context).1 = w.lookup name context ∧
      (s.lookup name context).2.Serves host w good cwd reads := by
  obtain ⟨hanswer, hstate⟩ := hgives.lookup h.good name context
  rw [← h.host_eq] at hanswer hstate
  exact ⟨hanswer, h.withState hstate⟩

theorem ask (h : s.Serves host w good cwd reads) (identifier prev : Text) :
    (s.ask identifier prev).1 = w.ask identifier prev ∧
      (s.ask identifier prev).2.Serves host w good cwd reads := by
  obtain ⟨hanswer, hstate⟩ := hgives.ask h.good identifier prev
  rw [← h.host_eq] at hanswer hstate
  exact ⟨hanswer, h.withState hstate⟩

omit hgives in
theorem mark (h : s.Serves host w good cwd reads) (file : Text) :
    (s.mark file).2.Serves host w good cwd reads :=
  h.withSession (s.session.desk_mark s.cwd file)

theorem register (h : s.Serves host w good cwd reads) (token path : Text) :
    (s.register token path).2.Serves host w good cwd reads :=
  (h.withSession (s.session.desk_register token path)).noteAll hgives _

/-- Someone comes for a path, and waits for a read of its key. -/
theorem arrive (h : s.Serves host w good cwd reads) (path : Text) :
    ∃ reads', reads <+: reads' ∧ (s.arrive path).2.2.Serves host w good cwd reads' ∧
      reads'[(s.arrive path).1]? = some (Path.absolute cwd path) := by
  have hkey : s.key path = Path.absolute cwd path := by rw [Compilation.key, h.cwd_eq]
  have hgrows := s.session.desk.grows_arrive reads (s.key path)
  refine ⟨_, hgrows.reads, ?_, hkey ▸ h.inOrder.getElem?_callsAfter (s.key path)⟩
  have hdesk : Serves host w good cwd (s.session.desk.callsAfter reads (s.key path))
      { s with
        session := { s.session with desk := (s.session.desk.arrive (s.key path)).2.2 } } := by
    refine ⟨h.cwd_eq, h.host_eq, h.good, h.inOrder.arrive _, ?_⟩
    intro n k o hn ho
    rw [ReadDesk.outcome?_arrive] at ho
    -- A read that has an outcome is one of those before.
    have hlt : n < reads.length := by
      by_contra hge
      rw [ReadDesk.outcome?, List.getElem?_eq_none (by rw [h.inOrder.length_eq]; omega)] at ho
      cases ho
    refine h.outcome ?_ ho
    obtain ⟨more, hmore⟩ := hgrows.reads
    rw [← hmore, List.getElem?_append_left hlt] at hn
    exact hn
  unfold Compilation.arrive
  dsimp only
  split
  · exact hdesk.noteAll hgives _
  · exact hdesk

/-- A read that someone waits for is over, with the outcome that it should have. -/
theorem complete (h : s.Serves host w good cwd reads) {path : Text} {n : Nat}
    (hn : reads[n]? = some (Path.absolute cwd path)) :
    (s.complete path n).1 = w.read (Path.absolute cwd path) ∧
      (s.complete path n).2.Serves host w good cwd reads ∧
      (s.complete path n).2.session.desk.outcome? n = some (w.read (Path.absolute cwd path)) := by
  unfold Compilation.complete
  cases ho : s.session.desk.outcome? n with
  | some o =>
    obtain rfl := h.outcome hn ho
    exact ⟨rfl, h, ho⟩
  | none =>
    obtain ⟨houtcome, hstate⟩ := hgives.read h.good (Path.absolute cwd path)
    have hkey : s.key path = Path.absolute cwd path := by rw [Compilation.key, h.cwd_eq]
    have hlt : n < s.session.desk.outcomes.length :=
      h.inOrder.length_eq ▸ (List.getElem?_eq_some_iff.mp hn).1
    simp only [hkey, h.host_eq]
    rw [houtcome]
    refine ⟨rfl, ⟨h.cwd_eq, rfl, hstate, h.inOrder.complete ho _, ?_⟩,
      ReadDesk.outcome?_complete_self hlt _⟩
    intro m k o hm hmo
    rcases Nat.decEq m n with hne | rfl
    · exact h.outcome hm (ReadDesk.outcome?_complete_of_ne hne _ _ ▸ hmo)
    · rw [ReadDesk.outcome?_complete_self hlt, Option.some.injEq] at hmo
      rw [hn, Option.some.injEq] at hm
      rw [← hm, hmo]

omit hgives in
theorem resume (h : s.Serves host w good cwd reads) (path : Text) {n : Nat} {o : ReadOutcome}
    (ho : s.session.desk.outcome? n = some o) :
    (s.resume path n o).Serves host w good cwd reads where
  cwd_eq := h.cwd_eq
  host_eq := h.host_eq
  good := h.good
  inOrder := h.inOrder.resume ho
  outcome hm hmo := h.outcome hm (ReadDesk.outcome?_resume _ _ _ _ _ ▸ hmo)

end Compilation.Serves

/-! ### Turns -/

namespace Task

/-- A task that waits for a read waits for one of its key. -/
def Waits (cwd : Text) (reads : List Text) : Task Resolved → Prop
  | waiting path n _ => reads[n]? = some (Path.absolute cwd path)
  | _ => True

theorem Waits.mono {reads reads' : List Text} {t : Task Resolved} (h : t.Waits cwd reads)
    (hmore : reads <+: reads') : t.Waits cwd reads' := by
  cases t with
  | waiting path n next => exact ReadDesk.getElem?_mono hmore h
  | _ => trivial

/-- The result of a task that is over. -/
def result? : Task Resolved → Option (Except Failure Resolved)
  | finished result => some result
  | _ => none

theorem result?_eq_some {t : Task Resolved} {result : Except Failure Resolved} :
    t.result? = some result ↔ t = .finished result := by
  cases t <;> simp [result?]

/-- What a task comes to by the answers of `w`. -/
def ComesTo (w : Answers) (cwd : Text) (x : Except Failure Resolved) : Task Resolved → Prop
  | ready plan => plan.ComesTo w cwd x
  | waiting path _ next => (next (w.read (Path.absolute cwd path))).ComesTo w cwd x
  | finished result => result.map Resolved.unmarked = x

/-- What one turn does: `s` is the compilation after it and `t` what is left of the task.  If the
task came to something before, it still does. -/
structure Turned (host : Host σ) (w : Answers) (good : σ → Prop) (cwd : Text) (reads : List Text)
    (before : Except Failure Resolved → Prop) (t : Task Resolved) (s : Compilation σ) : Prop where
  serves : ∃ reads', reads <+: reads' ∧ s.Serves host w good cwd reads' ∧ t.Waits cwd reads'
  comesTo : ∀ {x}, before x → t.ComesTo w cwd x

variable (hgives : host.Gives w good) {reads : List Text} {s : Compilation σ}

theorem turned_finished (h : s.Serves host w good cwd reads) (result : Except Failure Resolved) :
    Turned host w good cwd reads (result.map Resolved.unmarked = ·) (.finished result) s :=
  ⟨⟨reads, List.prefix_rfl, h, trivial⟩, id⟩

include hgives

theorem turned_advance (p : Plan Resolved) (h : s.Serves host w good cwd reads) :
    Turned host w good cwd reads (p.ComesTo w cwd ·) (p.advance s).1 (p.advance s).2 := by
  induction p generalizing s with
  | done r => exact turned_finished h (.ok r)
  | fail e => exact turned_finished h (.error e)
  | isFile path next ih =>
    have hfile : s.host.isFile s.state path = w.isFile path := by
      rw [h.host_eq]
      exact hgives.isFile h.good path
    simp only [Plan.advance, Plan.ComesTo, hfile]
    exact ih _ h
  | lookup name context next ih =>
    obtain ⟨hanswer, hserves⟩ := h.lookup hgives name context
    rcases hfound : s.lookup name context with ⟨e | r, s'⟩ <;> rw [hfound] at hanswer hserves <;>
      simp only [Plan.advance, Plan.ComesTo, hfound, ← hanswer]
    · exact turned_finished hserves (.error e)
    · exact ih r hserves
  | read path next ih =>
    obtain ⟨reads', hmore, hserves, hn⟩ := h.arrive hgives path
    exact ⟨⟨reads', hmore, hserves, hn⟩, id⟩
  | askHost identifier prev next ih =>
    obtain ⟨hanswer, hserves⟩ := h.ask hgives identifier prev
    rcases hasked : s.ask identifier prev with ⟨e | r, s'⟩ <;> rw [hasked] at hanswer hserves <;>
      simp only [Plan.advance, Plan.ComesTo, hasked, ← hanswer]
    · exact turned_finished hserves (.error (.host e))
    · exact ih r hserves
  | mark file next ih =>
    obtain ⟨hserves, hcomes⟩ := ih (s.mark file).1 (h.mark file)
    exact ⟨hserves, fun hx => hcomes (hx _)⟩
  | register token path next ih =>
    exact ⟨(ih _ (h.register hgives token path)).serves, fun hx => hx.elim⟩
  | note e next ih => exact ih (h.noteAll hgives [e])
  | pause next ih => exact ⟨⟨reads, List.prefix_rfl, h, trivial⟩, id⟩

theorem turned_step {t : Task Resolved} (h : s.Serves host w good cwd reads)
    (hwaits : t.Waits cwd reads) :
    Turned host w good cwd reads (t.ComesTo w cwd ·) (t.step s).1 (t.step s).2 := by
  cases t with
  | ready plan => exact turned_advance hgives plan h
  | finished result => exact turned_finished h result
  | waiting path n next =>
    obtain ⟨houtcome, hserves, hover⟩ := h.complete hgives hwaits
    have hturn := turned_advance hgives (next (w.read (Path.absolute cwd path)))
      (hserves.resume path hover)
    simp only [step, houtcome]
    exact hturn

theorem comesTo_turns (n : Nat) {t : Task Resolved} (h : s.Serves host w good cwd reads)
    (hwaits : t.Waits cwd reads) {x : Except Failure Resolved} (hx : t.ComesTo w cwd x) :
    (turns n t s).1.ComesTo w cwd x := by
  induction n generalizing reads s t with
  | zero => exact hx
  | succ n ih =>
    obtain ⟨⟨reads', -, hserves, hwaits'⟩, hcomes⟩ := turned_step hgives h hwaits
    exact ih hserves hwaits' (hcomes hx)

/-- A task that is finished on its own ends with what it comes to. -/
theorem comesTo_finish {t : Task Resolved} (h : s.Serves host w good cwd reads)
    (hwaits : t.Waits cwd reads) {x : Except Failure Resolved} (hx : t.ComesTo w cwd x) :
    (t.finish s).1.map Resolved.unmarked = x := by
  obtain ⟨n, hn⟩ := t.exists_turns_finish s
  have hend := comesTo_turns hgives n h hwaits hx
  rwa [hn] at hend

end Task

/-! ### Runs -/

deriving instance DecidableEq for Request

namespace BindingRun

/-- What holds after every step. -/
structure Steady (host : Host σ) (w : Answers) (good : σ → Prop) (cwd : Text)
    (r : BindingRun σ) : Prop where
  serves : ∃ reads, r.compilation.Serves host w good cwd reads ∧
    ∀ {k : Nat} {q : Request} {t : Task Resolved}, r.calls[k]? = some (q, t) → t.Waits cwd reads
  /-- A call still comes to what its request comes to. -/
  comesTo : ∀ {k : Nat} {q : Request} {t : Task Resolved}, r.calls[k]? = some (q, t) →
    ∀ {x}, (q.plan cwd).ComesTo w cwd x → t.ComesTo w cwd x

variable (hgives : host.Gives w good) {r : BindingRun σ}

theorem steady_start {state : σ} (h : good state) :
    (start cwd host state).Steady host w good cwd where
  serves := ⟨[], .fresh h, fun hk => by simp [start] at hk⟩
  comesTo hk := by simp [start] at hk

/-- Something other than a call happens to what the calls share. -/
theorem Steady.of_serves (h : r.Steady host w good cwd) {s : Compilation σ}
    {offers : List (Text × Text)}
    (hs : ∀ {reads}, r.compilation.Serves host w good cwd reads → s.Serves host w good cwd reads) :
    ({ r with compilation := s, offers } : BindingRun σ).Steady host w good cwd := by
  obtain ⟨⟨reads, hserves, hwaits⟩, hcomes⟩ := h
  exact ⟨⟨reads, hs hserves, hwaits⟩, hcomes⟩

theorem Steady.call (h : r.Steady host w good cwd) (q : Request) :
    (r.step (.call q)).Steady host w good cwd := by
  obtain ⟨⟨reads, hserves, hwaits⟩, hcomes⟩ := h
  refine ⟨⟨reads, hserves, fun {k q' t} hk => ?_⟩, fun {k q' t} hk => ?_⟩
  · rcases ReadDesk.getElem?_concat.mp hk with hk | ⟨-, heq⟩
    · exact hwaits hk
    · obtain ⟨rfl, rfl⟩ := Prod.mk.inj heq
      trivial
  · rcases ReadDesk.getElem?_concat.mp hk with hk | ⟨-, heq⟩
    · exact hcomes hk
    · obtain ⟨rfl, rfl⟩ := Prod.mk.inj heq
      intro x hx
      rw [hserves.cwd_eq]
      exact hx

include hgives

theorem Steady.readEnds (h : r.Steady host w good cwd) (k : Nat) :
    (r.step (.readEnds k)).Steady host w good cwd := by
  show (r.readEnds k).Steady host w good cwd
  unfold BindingRun.readEnds
  split
  · rename_i q path n next hk
    obtain ⟨⟨reads, hserves, hwaits⟩, hcomes⟩ := h
    obtain ⟨-, hserves', -⟩ := hserves.complete hgives (hwaits hk)
    exact ⟨⟨reads, hserves', hwaits⟩, hcomes⟩
  · exact h

theorem Steady.turn (h : r.Steady host w good cwd) (k : Nat) :
    (r.step (.turn k)).Steady host w good cwd := by
  show (r.turn k).Steady host w good cwd
  unfold BindingRun.turn
  split
  · exact h
  · exact h
  · rename_i q task _ hk
    obtain ⟨⟨reads, hserves, hwaits⟩, hcomes⟩ := h
    obtain ⟨⟨reads', hmore, hserves', hwaits'⟩, hcomes'⟩ :=
      Task.turned_step hgives hserves (hwaits hk)
    -- Only the call whose turn it was has become another one.
    have hcalls : ∀ {j : Nat} {q' t'},
        (r.calls.set k (q, (task.step r.compilation).1))[j]? = some (q', t') →
          q = q' ∧ (task.step r.compilation).1 = t' ∨ r.calls[j]? = some (q', t') := by
      intro j q' t' hj
      rw [List.getElem?_set] at hj
      split at hj
      · split at hj
        · exact .inl (by simpa using hj)
        · cases hj
      · exact .inr hj
    refine ⟨⟨reads', hserves', fun hj => ?_⟩, fun hj => ?_⟩
    · rcases hcalls hj with ⟨-, rfl⟩ | hj
      · exact hwaits'
      · exact (hwaits hj).mono hmore
    · rcases hcalls hj with ⟨rfl, rfl⟩ | hj
      · exact fun hx => hcomes' (hcomes hk hx)
      · exact hcomes hj

theorem Steady.step (h : r.Steady host w good cwd) {s : BindingStep σ}
    (hs : ∀ f, s = .change f → ∀ state, good state → good (f state)) :
    (r.step s).Steady host w good cwd := by
  cases s with
  | call q => exact h.call q
  | turn k => exact h.turn hgives k
  | readEnds k => exact h.readEnds hgives k
  | change f => exact h.of_serves fun hserves => hserves.withState (hs f rfl _ hserves.good)
  | register token path => exact h.of_serves fun hserves => hserves.register hgives token path

theorem Steady.steps (h : r.Steady host w good cwd) {ss : List (BindingStep σ)}
    (hss : ∀ f, .change f ∈ ss → ∀ state, good state → good (f state)) :
    (r.steps ss).Steady host w good cwd := by
  induction ss generalizing r with
  | nil => exact h
  | cons s ss ih =>
    have hs : ∀ f, s = .change f → ∀ state, good state → good (f state) :=
      fun f hf => hss f (hf ▸ List.mem_cons_self)
    exact ih (h.step hgives hs) fun f hf => hss f (List.mem_cons_of_mem s hf)

omit hgives in
theorem getElem?_turn {k : Nat} {q : Request} {t : Task Resolved}
    (hk : r.calls[k]? = some (q, t)) :
    (r.turn k).calls[k]? = some (q, (t.step r.compilation).1) ∧
      (r.turn k).compilation = (t.step r.compilation).2 := by
  have hlt : k < r.calls.length := (List.getElem?_eq_some_iff.mp hk).1
  unfold BindingRun.turn
  rw [hk]
  cases t with
  | ready plan => exact ⟨List.getElem?_set_self hlt, rfl⟩
  | waiting path n next => exact ⟨List.getElem?_set_self hlt, rfl⟩
  | finished result => exact ⟨hk, rfl⟩

omit hgives in
theorem getElem?_turns (n : Nat) {k : Nat} {q : Request} {t : Task Resolved}
    (hk : r.calls[k]? = some (q, t)) :
    (r.steps (List.replicate n (.turn k))).calls[k]?
      = some (q, (Task.turns n t r.compilation).1) := by
  induction n generalizing r t with
  | zero => exact hk
  | succ n ih =>
    obtain ⟨hcall, hcompilation⟩ := getElem?_turn hk
    have hrest := ih hcall
    rwa [hcompilation] at hrest

omit hgives in
/-- A call that nobody interrupts comes to its end. -/
theorem exists_turns_finish (r : BindingRun σ) {k : Nat} {q : Request} {t : Task Resolved}
    (hk : r.calls[k]? = some (q, t)) :
    ∃ n, (r.steps (List.replicate n (.turn k))).calls[k]?
      = some (q, .finished (t.finish r.compilation).1) := by
  obtain ⟨n, hn⟩ := t.exists_turns_finish r.compilation
  have hend := getElem?_turns n hk
  rw [hn] at hend
  exact ⟨n, hend⟩

/-- **While nothing changes, a session makes no difference to what its imports yield.**  Imports
share a session, with calls at any time and turns in any order, registrations among them; the host
gives the same answers to the same questions throughout.  Then every call for an import that is no
registration is over after enough turns, and whenever it is, it yielded the file and the contents,
or the error, that it yields on a fresh session. -/
theorem same_as_alone {state : σ} (hstate : good state) (fresh : σ) (hfresh : good fresh)
    {ss : List (BindingStep σ)}
    (hss : ∀ f, .change f ∈ ss → ∀ state, good state → good (f state)) {k : Nat} {q : Request}
    {t : Task Resolved} (hk : (steps (start cwd host state) ss).calls[k]? = some (q, t))
    (hq : Registration.token? q.identifier = none) :
    let i : Importer := ⟨cwd, q.settings, q.unified⟩
    let alone := ((i.resolve q.identifier q.prev).run ⟨cwd, host, {}, fresh⟩).1
    (∀ result, t = .finished result →
      result.map Resolved.unmarked = alone.map Resolved.unmarked) ∧
    ∃ n result, (steps (start cwd host state) (ss ++ List.replicate n (.turn k))).calls[k]?
        = some (q, .finished result) ∧
      result.map Resolved.unmarked = alone.map Resolved.unmarked := by
  intro i alone
  obtain ⟨x, hx⟩ := i.exists_comesTo w cwd hq q.prev
  have halone : alone.map Resolved.unmarked = x :=
    Task.comesTo_finish hgives (t := .ready (i.resolve q.identifier q.prev)) (.fresh hfresh)
      trivial hx
  have hplan : (q.plan cwd).ComesTo w cwd x := by
    unfold Request.plan
    dsimp only
    split
    · exact hx.unhurried
    · exact hx
  obtain ⟨⟨reads, hserves, hwaits⟩, hcomes⟩ := (steady_start hstate).steps hgives hss
  have ht : t.ComesTo w cwd x := hcomes hk hplan
  rw [halone]
  refine ⟨?_, ?_⟩
  · rintro result rfl
    exact ht
  · obtain ⟨n, hn⟩ := exists_turns_finish _ hk
    refine ⟨n, _, ?_, Task.comesTo_finish hgives hserves (hwaits hk) ht⟩
    rw [steps, List.foldl_append]
    exact hn

omit hgives in
/-- Two calls join the read of a file that is gone by then; the first of them takes it off the desk,
and both go on to the next candidate, which only one of them is the first to import. -/
theorem same_as_alone_after_shared_failure :
    let host : Host Unit :=
      { isFile := fun _ _ => true, lookup := fun _ _ s => (.ok none, s)
        read := fun path s =>
          (if path = ['/', 'a'] then .error (.system { code := 2, reason := [] }) else .ok ['x'], s)
        ask := fun _ _ s => (.ok none, s), note := fun _ s => s }
    let settings : Settings :=
      { root := ['/'], extensions := [['.', 'c']], enableImportOnce := true }
    let q : Request := ⟨settings, true, false, ['a'], ['/', 'p']⟩
    let r := steps (start ['/'] host ()) ([.call q, .call q] ++
      (List.replicate 5 [.turn 0, .turn 1]).flatten)
    let alone := (((⟨['/'], settings, true⟩ : Importer).resolve ['a'] ['/', 'p']).run
      ⟨['/'], host, {}, ()⟩).1
    r.calls.map (fun c => c.2.result?)
        = [some (.ok ⟨['x'], ['/', 'a', '.', 'c'], false⟩),
           some (.ok ⟨['x'], ['/', 'a', '.', 'c'], true⟩)] ∧
      alone.map Resolved.unmarked = .ok ⟨['x'], ['/', 'a', '.', 'c'], false⟩ := by
  intro host settings q r alone
  have hcalls : r.calls.map (fun c => (c.1, c.2.result?))
      = [(q, some (.ok ⟨['x'], ['/', 'a', '.', 'c'], false⟩)),
         (q, some (.ok ⟨['x'], ['/', 'a', '.', 'c'], true⟩))] := by
    simp only [r, q, settings, host]
    decide +kernel
  have hgives : host.Gives
      { isFile := fun _ => true, lookup := fun _ _ => .ok none
        read := fun path =>
          if path = ['/', 'a'] then .error (.system { code := 2, reason := [] }) else .ok ['x']
        ask := fun _ _ => .ok none } fun _ => True :=
    ⟨fun _ _ => rfl, fun _ _ _ => ⟨rfl, trivial⟩, fun _ _ => ⟨rfl, trivial⟩,
      fun _ _ _ => ⟨rfl, trivial⟩, fun _ _ => trivial⟩
  have hsecond : (r.calls[1]?).map (fun c => (c.1, c.2.result?))
      = some (q, some (.ok ⟨['x'], ['/', 'a', '.', 'c'], true⟩)) := by
    rw [← List.getElem?_map, hcalls]
    rfl
  refine ⟨?_, ?_⟩
  · have hresults := congrArg (List.map Prod.snd) hcalls
    rwa [List.map_map] at hresults
  · obtain ⟨⟨q', t⟩, hk, heq⟩ := Option.map_eq_some_iff.mp hsecond
    obtain ⟨hq, ht⟩ := Prod.mk.inj heq
    dsimp only at hq ht
    rw [hq] at hk
    have hsame := (same_as_alone hgives trivial () trivial (fun _ _ _ _ => trivial) hk rfl).1 _
      (Task.result?_eq_some.mp ht)
    exact hsame.symm

end BindingRun

end

end StyleImport
