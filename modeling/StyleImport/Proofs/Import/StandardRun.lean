/-
Imports in a world of the library's own.

A world is standard if its registry is the one of the settings and there is neither a resolver nor a
reader of the host.  It stays so whatever the imports do, and each of them ends as its plan says.

* `World.Standard`, `Compilation.Standard` — such a world, and a compilation in it;
* `Task.ends_step`, `Task.ends_finish` — what one turn and all the turns of a task keep to;
* `Importer.runAll_outcome` — all imports of a compilation end as they should, in any order, unless
  a lookup breaks off;
* `Importer.run_resolve_of_breaks` — and an import whose lookup breaks off fails.
-/
import Mathlib.Data.List.Forall2
import StyleImport.Import.Interleaving
import StyleImport.Import.World
import StyleImport.Proofs.Import.Attribution
import StyleImport.Proofs.Import.Outcomes
import StyleImport.Proofs.Import.ReadDesk

namespace StyleImport

/-! ### Side by side -/

section

variable {ι τ : Type} {R : ι → τ → Prop} {qs : List ι} {ts : List τ} {k : Nat} {t t' : τ}

theorem exists_of_forall₂ (h : List.Forall₂ R qs ts) (hk : ts[k]? = some t) : ∃ q, R q t := by
  obtain ⟨hlt, rfl⟩ := List.getElem?_eq_some_iff.mp hk
  exact ⟨_, h.get (h.length_eq ▸ hlt) hlt⟩

theorem forall₂_set (h : List.Forall₂ R qs ts) (hk : ts[k]? = some t) (ht : ∀ q, R q t → R q t') :
    List.Forall₂ R qs (ts.set k t') := by
  induction h generalizing k with
  | nil => simp at hk
  | cons hq hqs ih =>
    cases k with
    | zero =>
      obtain rfl := Option.some.inj hk
      exact .cons (ht _ hq) hqs
    | succ k => exact .cons hq (ih hk)

end

/-! ### Standard worlds -/

/-- A world of the library's own, on a disk and with declared modules: the installed modules come
second, and there is neither a resolver nor a reader of the host. -/
structure World.Standard (d : Disk) (declared : List (Text × ModuleRecord)) (w : World) :
    Prop where
  disk_eq : w.disk = d
  registry_eq : ∃ known, w.registry = .chain [.declared declared, .installed none known]
  resolver_eq : w.resolver = none
  reader_eq : w.reader = []

namespace World.Standard

variable {d : Disk} {declared : List (Text × ModuleRecord)} {w : World}

theorem note (h : w.Standard d declared) (e : Event) : (World.host.note e w).Standard d declared :=
  ⟨h.disk_eq, h.registry_eq, h.resolver_eq, h.reader_eq⟩

/-- A lookup fails only for a module that is not declared, if something breaks it off. -/
theorem lookup (h : w.Standard d declared) (name context : Text) :
    (∀ e, (w.lookup name context).1 = .error e →
      Entries.get? name declared = none ∧ Registry.Breaks d none name context e) ∧
      (w.lookup name context).2.Standard d declared := by
  obtain ⟨known, hregistry⟩ := h.registry_eq
  simp only [World.lookup, hregistry, h.disk_eq, Registry.lookup_declared_or_installed]
  cases hname : Entries.get? name declared with
  | some r => exact ⟨fun e he => (by cases he), rfl, ⟨_, rfl⟩, h.resolver_eq, h.reader_eq⟩
  | none =>
    refine ⟨fun e he => ⟨rfl, Registry.lookupInstalled_eq_error he⟩, ?_⟩
    exact ⟨rfl, ⟨_, rfl⟩, h.resolver_eq, h.reader_eq⟩

theorem readPath (h : w.Standard d declared) (path : Text) :
    (World.readPath path w).1 = d.readText path ∧
      (World.readPath path w).2.Standard d declared := by
  simp only [World.readPath, h.reader_eq, h.disk_eq]
  exact ⟨rfl, rfl, h.registry_eq, h.resolver_eq, rfl⟩

theorem ask (h : w.Standard d declared) (identifier prev : Text) :
    World.ask identifier prev w = (.ok none, w) := by
  simp only [World.ask, h.resolver_eq]

end World.Standard

/-- A compilation in such a world.  No read of its desk failed for an impossible character. -/
structure Compilation.Standard (d : Disk) (declared : List (Text × ModuleRecord))
    (s : Compilation World) : Prop where
  cwd_eq : s.cwd = d.cwdPath
  host_eq : s.host = World.host
  world : s.state.Standard d declared
  reads : ∀ n, s.session.desk.outcome? n ≠ some (.error .nulInPath)

namespace Compilation.Standard

variable {d : Disk} {declared : List (Text × ModuleRecord)} {s : Compilation World}

theorem noteAll (h : s.Standard d declared) (events : List Event) :
    (s.noteAll events).Standard d declared where
  cwd_eq := h.cwd_eq
  host_eq := h.host_eq
  world := by
    have hworld : ∀ (w : World), w.Standard d declared →
        (events.foldl (fun w e => World.host.note e w) w).Standard d declared := by
      induction events with
      | nil => exact fun w hw => hw
      | cons e events ih => exact fun w hw => ih _ (hw.note e)
    rw [Compilation.noteAll, h.host_eq]
    exact hworld _ h.world
  reads := h.reads

theorem withSession (h : s.Standard d declared) {session : Session}
    (hreads : ∀ n, session.desk.outcome? n ≠ some (.error .nulInPath)) :
    ({ s with session } : Compilation World).Standard d declared :=
  ⟨h.cwd_eq, h.host_eq, h.world, hreads⟩

theorem arrive (h : s.Standard d declared) (p : Text) :
    (s.arrive p).2.2.Standard d declared := by
  have hdesk : ({ s with session :=
      { s.session with desk := (s.session.desk.arrive (s.key p)).2.2 } } :
        Compilation World).Standard d declared :=
    h.withSession fun n => by simpa using h.reads n
  unfold Compilation.arrive
  dsimp only
  split
  · exact hdesk.noteAll _
  · exact hdesk

/-- A read of a path without an impossible character does not fail for one. -/
theorem complete (h : s.Standard d declared) {p : Text}
    (hp : ¬ Text.HasNul (Path.absolute d.cwdPath p)) (n : Nat) :
    (s.complete p n).1 ≠ .error .nulInPath ∧ (s.complete p n).2.Standard d declared := by
  unfold Compilation.complete
  cases ho : s.session.desk.outcome? n with
  | some o => exact ⟨fun hnul => h.reads n (ho.trans (congrArg some hnul)), h⟩
  | none =>
    obtain ⟨hread, hworld⟩ := h.world.readPath (s.key p)
    have hne : (World.readPath (s.key p) s.state).1 ≠ .error .nulInPath := by
      rw [hread, Compilation.key, h.cwd_eq]
      exact fun hnul => hp (Disk.readText_eq_nul hnul)
    rw [h.host_eq]
    refine ⟨hne, h.cwd_eq, rfl, hworld, fun m hm => ?_⟩
    rcases ReadDesk.outcome?_complete_cases hm with hold | hnew
    · exact h.reads m hold
    · exact hne hnew

theorem lookup (h : s.Standard d declared) (name context : Text) :
    (∀ e, (s.lookup name context).1 = .error e →
      Entries.get? name declared = none ∧ Registry.Breaks d none name context e) ∧
      (s.lookup name context).2.Standard d declared := by
  obtain ⟨hfails, hworld⟩ := h.world.lookup name context
  have hlookup : s.host.lookup = World.lookup := by
    rw [h.host_eq]
    rfl
  simp only [Compilation.lookup, hlookup]
  exact ⟨hfails, h.cwd_eq, h.host_eq, hworld, h.reads⟩

theorem ask (h : s.Standard d declared) (identifier prev : Text) :
    s.ask identifier prev = (.ok none, s) := by
  have hask : s.host.ask = World.ask := by
    rw [h.host_eq]
    rfl
  simp only [Compilation.ask, hask, h.world.ask]

theorem resume (h : s.Standard d declared) (p : Text) (n : Nat) (o : ReadOutcome) :
    (s.resume p n o).Standard d declared :=
  h.withSession fun m => by simpa using h.reads m

theorem mark (h : s.Standard d declared) (file : Text) : (s.mark file).2.Standard d declared := by
  refine h.withSession ?_
  show ∀ n, (s.session.mark s.cwd file).2.desk.outcome? n ≠ _
  unfold Session.mark
  dsimp only
  split <;> exact h.reads

theorem register (h : s.Standard d declared) (token path : Text) :
    (s.register token path).2.Standard d declared := by
  refine (h.withSession ?_).noteAll _
  show ∀ n, (s.session.register token path).2.1.desk.outcome? n ≠ _
  unfold Session.register
  split <;> exact h.reads

end Compilation.Standard

/-! ### Turns -/

namespace Task

variable {α : Type} {d : Disk} {declared : List (Text × ModuleRecord)}
  {Q : Except Failure α → Prop} {s : Compilation World}

/-- Whether all ends of a task are of a kind. -/
def Ends (d : Disk) (declared : List (Text × ModuleRecord)) (Q : Except Failure α → Prop) :
    Task α → Prop
  | ready plan => plan.Ends d declared Q
  | waiting p _ next => (Plan.read p next).Ends d declared Q
  | finished result => Q result

theorem ends_advance {p : Plan α} (hs : s.Standard d declared) (hp : p.Ends d declared Q) :
    (p.advance s).1.Ends d declared Q ∧ (p.advance s).2.Standard d declared := by
  induction p generalizing s with
  | done | fail => exact ⟨hp, hs⟩
  | isFile p next ih =>
    have hfile : s.host.isFile s.state p = d.isFile p := by
      rw [hs.host_eq, ← hs.world.disk_eq]
      rfl
    rw [Plan.advance, hfile]
    exact ih _ hs hp
  | lookup name context next ih =>
    obtain ⟨hfails, hs'⟩ := hs.lookup name context
    rcases hanswer : s.lookup name context with ⟨e | r, s'⟩ <;> rw [hanswer] at hfails hs' <;>
      simp only [Plan.advance, hanswer]
    · obtain ⟨hnone, hbreaks⟩ := hfails e rfl
      exact ⟨hp.1 e hnone hbreaks, hs'⟩
    · exact ih r hs' (hp.2 r)
  | read p next ih => exact ⟨hp, hs.arrive p⟩
  | askHost identifier prev next ih =>
    simp only [Plan.advance, hs.ask]
    exact ih none hs hp
  | mark file next ih => exact ih _ (hs.mark file) (hp _)
  | register token path next ih => exact ih _ (hs.register token path) (hp _)
  | note e next ih => exact ih (hs.noteAll [e]) hp
  | pause next ih => exact ⟨hp, hs⟩

/-- The turn of a task: if it waited for a read, it learns of the outcome first. -/
theorem ends_step {t : Task α} (hs : s.Standard d declared) (ht : t.Ends d declared Q) :
    (t.step s).1.Ends d declared Q ∧ (t.step s).2.Standard d declared := by
  cases t with
  | ready plan => exact ends_advance hs ht
  | waiting p n next =>
    obtain ⟨hoverdue, hs'⟩ := hs.complete ht.1 n
    exact ends_advance (hs'.resume p n _) (ht.2 _ hoverdue)
  | finished result => exact ⟨ht, hs⟩

/-- All the turns that a task has left. -/
theorem ends_finish {t : Task α} (hs : s.Standard d declared) (ht : t.Ends d declared Q) :
    Q (t.finish s).1 ∧ (t.finish s).2.Standard d declared := by
  have hturns : ∀ n (t : Task α) s, s.Standard d declared → t.Ends d declared Q →
      (turns n t s).1.Ends d declared Q ∧ (turns n t s).2.Standard d declared := by
    intro n
    induction n with
    | zero => exact fun t s hs ht => ⟨ht, hs⟩
    | succ n ih =>
      intro t s hs ht
      obtain ⟨ht', hs'⟩ := ends_step hs ht
      exact ih _ _ hs' ht'
  obtain ⟨n, hn⟩ := t.exists_turns_finish s
  have hend := hturns n t s hs ht
  rw [hn] at hend
  exact hend

section

variable {ι : Type} {kind : ι → Except Failure α → Prop} {qs : List ι} {tasks : List (Task α)}

theorem ends_stepAt (hs : s.Standard d declared)
    (htasks : List.Forall₂ (fun q t => t.Ends d declared (kind q)) qs tasks) (position : Nat) :
    List.Forall₂ (fun q t => t.Ends d declared (kind q)) qs (stepAt tasks s position).1 ∧
      (stepAt tasks s position).2.Standard d declared := by
  unfold stepAt
  cases htask : tasks[position]? with
  | none => exact ⟨htasks, hs⟩
  | some t =>
    refine ⟨forall₂_set htasks htask fun q ht => (ends_step hs ht).1, ?_⟩
    -- Somebody asked for the task, whoever it was.
    obtain ⟨q, ht⟩ := exists_of_forall₂ htasks htask
    exact (ends_step hs ht).2

theorem ends_runSchedule (hs : s.Standard d declared)
    (htasks : List.Forall₂ (fun q t => t.Ends d declared (kind q)) qs tasks)
    (schedule : List Nat) :
    List.Forall₂ (fun q t => t.Ends d declared (kind q)) qs (runSchedule tasks s schedule).1 ∧
      (runSchedule tasks s schedule).2.Standard d declared := by
  induction schedule generalizing tasks s with
  | nil => exact ⟨htasks, hs⟩
  | cons position schedule ih =>
    obtain ⟨htasks', hs'⟩ := ends_stepAt hs htasks position
    exact ih hs' htasks'

theorem ends_finishAll (hs : s.Standard d declared)
    (htasks : List.Forall₂ (fun q t => t.Ends d declared (kind q)) qs tasks) :
    List.Forall₂ kind qs (finishAll s tasks).1 := by
  induction htasks generalizing s with
  | nil => exact .nil
  | cons ht _ ih =>
    obtain ⟨hresult, hs'⟩ := ends_finish hs ht
    exact .cons hresult (ih hs')

end

end Task

/-! ### How imports end -/

namespace Importer

section

variable {d : Disk} {settings : Settings} {identifier prev name path : Text} {e : Failure}

/-- An import fails as the lookup of its module does. -/
theorem run_resolve_of_lookup_error (unified : Bool)
    (hplain : Registration.token? identifier = none)
    (hpath : (Uri.isRelative identifier || Path.isAbsolute identifier) = false)
    (hsplit : ModuleName.split identifier = some (name, path))
    (hdeclared : ∀ r ∈ settings.moduleRecords, r.name ≠ name)
    (h : (Registry.lookupInstalled d none [] name
      (if d.isFile prev then prev else settings.root)).1 = .error e) :
    let i : Importer := ⟨d.cwdPath, settings, unified⟩
    let w : World := { disk := d, registry := .ofRecordsAndDisk settings.moduleRecords }
    ((i.resolve identifier prev).run w.compilation).1 = .error e := by
  intro i w
  set context := if d.isFile prev then prev else settings.root
  have hlookup : ∃ s', (w.compilation).lookup name context = (.error e, s') := by
    have hregistry : w.registry = .chain [.declared _, .installed none []] := rfl
    refine ⟨_, Prod.ext ?_ rfl⟩
    show (w.registry.lookup d name context).1 = .error e
    rw [hregistry, Registry.lookup_declared_or_installed,
      Registry.get?_records_eq_none.mpr hdeclared]
    exact h
  obtain ⟨s', hlookup⟩ := hlookup
  have hmodule : (Located.lookupModule identifier context name path).run w.compilation
      = (.error e, s') := by
    rw [Located.lookupModule, Plan.run, hlookup]
  have hlocate : (Located.locate settings.root identifier prev).run w.compilation
      = (.error e, s') := by
    rw [Located.locate, Plan.run]
    simp only [hpath, hsplit, Bool.false_eq_true, if_false]
    exact Plan.run_bind_of_error hmodule _
  unfold resolve
  rw [hplain]
  exact congrArg Prod.fst (Plan.run_bind_of_error (Plan.run_bind_of_error hlocate _) _)

/-- An import whose lookup breaks off fails, and with none of the promised errors. -/
theorem run_resolve_of_breaks (unified : Bool) (hplain : Registration.token? identifier = none)
    (hpath : (Uri.isRelative identifier || Path.isAbsolute identifier) = false)
    (hsplit : ModuleName.split identifier = some (name, path))
    (hdeclared : ∀ r ∈ settings.moduleRecords, r.name ≠ name)
    (h : Registry.Breaks d none name (if d.isFile prev then prev else settings.root) e) :
    let i : Importer := ⟨d.cwdPath, settings, unified⟩
    let w : World := { disk := d, registry := .ofRecordsAndDisk settings.moduleRecords }
    ∃ e', ((i.resolve identifier prev).run w.compilation).1 = .error e' ∧
      ∀ promised, e' ≠ .promised promised := by
  intro i w
  obtain ⟨e', he'⟩ := Registry.exists_error_of_breaks h
  exact ⟨e', run_resolve_of_lookup_error unified hplain hpath hsplit hdeclared he',
    (Registry.lookupInstalled_eq_error he').ne_promised⟩

end

/-- A disk with one module, whose metadata are the given bytes. -/
def oneModule (bytes : List UInt8) : Disk :=
  { top := [(installedName, .directory [(['m'], .directory [(metadataName, .file bytes 0)])])] }

theorem lookup_oneModule (bytes : List UInt8) :
    (oneModule bytes).lookup (Registry.metadataPath ['m'] ['/'])
      = .ok ([installedName, ['m'], metadataName], .file bytes 0) := by
  have hsingle {name : Text} {n : Node} (h : n.LinkFree) : (Node.directory [(name, n)]).LinkFree :=
    .ofEntries (by simpa using h)
  have hfree : (oneModule bytes).root.LinkFree := hsingle (hsingle (hsingle (.file bytes 0)))
  have hlookup := Disk.lookup_of_isName hfree (p := Registry.metadataPath ['m'] ['/']) (by decide)
    (by decide) (by decide) (by decide) (by decide) rfl
  exact hlookup

/-- The metadata is found from the root directory. -/
theorem metadataFrom_oneModule (bytes : List UInt8) :
    Registry.metadataFrom (oneModule bytes) none ['m'] ['/']
      = .ok (some (Registry.metadataPath ['m'] ['/'])) := by
  have hroot : (oneModule bytes).lookup ['/'] = .ok ([], (oneModule bytes).root) := by
    refine Disk.lookup_eq_ok.mpr (Disk.place_eq_ok.mpr ⟨by decide, by decide, by decide, ?_⟩)
    have hnames : Disk.walkNames ['/'] = [Path.here] := by decide
    rw [hnames, Disk.walk_here rfl, Disk.walk]
    rfl
  have hplace : Registry.searchPath (oneModule bytes) ['/'] = .ok [['/']] := by
    have hpath : Path.fromRoot (oneModule bytes).cwdPath ['/'] = ['/'] := rfl
    simp only [Registry.searchPath, hpath, Disk.isFileOrFail_of_lookup hroot]
    rfl
  have hfile : (oneModule bytes).isFileOrFail (Registry.metadataPath ['m'] ['/']) = .ok true :=
    Disk.isFileOrFail_of_lookup (lookup_oneModule bytes)
  have hfound : Registry.findInstalled (oneModule bytes) none ['m'] [['/']]
      = .ok (some (Registry.metadataPath ['m'] ['/'])) := by
    unfold Registry.findInstalled
    rw [hfile]
  rw [Registry.metadataFrom, hplace]
  exact hfound

theorem readBytes_oneModule (bytes : List UInt8) :
    (oneModule bytes).readBytes (Registry.metadataPath ['m'] ['/']) = .ok bytes := by
  rw [Disk.readBytes, lookup_oneModule]
  rfl

/-- An import from the module fails as its metadata does. -/
theorem run_resolve_oneModule {bytes : List UInt8} {e : Failure}
    (h : (Registry.readMetadata (oneModule bytes) ['m'] (Registry.metadataPath ['m'] ['/'])).1
      = .error e) :
    let settings : Settings := { root := ['/'] }
    let i : Importer := ⟨(oneModule bytes).cwdPath, settings, false⟩
    let w : World :=
      { disk := oneModule bytes, registry := .ofRecordsAndDisk settings.moduleRecords }
    ((i.resolve ['m', '/', 'x'] []).run w.compilation).1 = .error e := by
  intro settings i w
  have hcontext : (if (oneModule bytes).isFile [] then [] else settings.root) = ['/'] := rfl
  have hdeclared : ∀ r ∈ settings.moduleRecords, r.name ≠ ['m'] := by
    simp [settings, Settings.moduleRecords]
  have hlookup : (Registry.lookupInstalled (oneModule bytes) none [] ['m']
      (if (oneModule bytes).isFile [] then [] else settings.root)).1 = .error e := by
    rw [hcontext, Registry.fst_lookupInstalled, metadataFrom_oneModule]
    exact h
  have hsplit : ModuleName.split ['m', '/', 'x'] = some (['m'], ['x']) := by decide
  exact run_resolve_of_lookup_error false (by decide) (by decide) hsplit hdeclared hlookup

/-- **How imports end.**  Imports on a disk that stays as it is, with the modules that the settings
declare and the installed ones, and with nobody else to ask, all end, however many there are of them
on one session and whoever has a turn when.  Each ends with a result, with a promised error about
its identifier, its module or a file that cannot be read, or where the lookup of a module that is
not declared breaks off. -/
theorem runAll_outcome (d : Disk) (settings : Settings) (unified : Bool)
    (requests : List (Text × Text)) (schedule : List Nat) :
    let i : Importer := ⟨d.cwdPath, settings, unified⟩
    let w : World := { disk := d, registry := .ofRecordsAndDisk settings.moduleRecords }
    let plans := requests.map fun q => i.resolve q.1 q.2
    List.Forall₂ (fun q result => i.Outcome d q.1 q.2 result) requests
      (Task.runAll plans schedule w.compilation).1 := by
  intro i w plans
  let declared : List (Text × ModuleRecord) :=
    settings.moduleRecords.foldl (fun es r => Entries.put r.name r es) []
  have hs : (w.compilation).Standard d declared :=
    ⟨rfl, rfl, ⟨rfl, ⟨[], rfl⟩, rfl, rfl⟩, fun n => by simp [World.compilation, ReadDesk.outcome?]⟩
  have htasks : List.Forall₂ (fun q t => Task.Ends d declared (i.Outcome d q.1 q.2) t) requests
      (plans.map .ready) := by
    rw [List.forall₂_map_right_iff, List.forall₂_map_right_iff, List.forall₂_same]
    intro q _
    exact ends_resolve (i := i) rfl (fun name => Registry.get?_records_eq_none.mp) q.1 q.2
  obtain ⟨htasks', hs'⟩ := Task.ends_runSchedule hs htasks schedule
  exact Task.ends_finishAll hs' htasks'

/-- Metadata that is an empty list, and metadata that is no text. -/
theorem resolve_fails_unpromised :
    let settings : Settings := { root := ['/'] }
    let result := fun bytes : List UInt8 =>
      let d := oneModule bytes
      let i : Importer := ⟨d.cwdPath, settings, false⟩
      let w : World := { disk := d, registry := .ofRecordsAndDisk settings.moduleRecords }
      ((i.resolve ['m', '/', 'x'] []).run w.compilation).1
    result [0x5b, 0x5d] = .error .notAMap ∧
      ∃ f, result [0xff] = .error (.read (.undecodable f)) := by
  intro settings result
  constructor
  · have htext : (oneModule [0x5b, 0x5d]).readText (Registry.metadataPath ['m'] ['/'])
        = .ok ['[', ']'] := by
      rw [Disk.readText, readBytes_oneModule]
      rfl
    have htokens : Json.tokens 0 ['[', ']'] = [(.mark '[', 0), (.mark ']', 1)] := by
      simp [Json.tokens, Json.isBlank, Json.isMark]
    have hjson : Json.read ['[', ']'] = .ok (.list []) := by
      show Json.readTokens 2 ⟨[], .value⟩ (Json.tokens 0 ['[', ']']) = _
      rw [htokens]
      rfl
    refine run_resolve_oneModule ?_
    simp only [Registry.readMetadata, htext, hjson]
    rfl
  · have htext : ∃ f, (oneModule [0xff]).readText (Registry.metadataPath ['m'] ['/'])
        = .error (.undecodable f) := by
      rw [Disk.readText, readBytes_oneModule]
      exact ⟨_, rfl⟩
    obtain ⟨f, htext⟩ := htext
    refine ⟨f, run_resolve_oneModule ?_⟩
    simp only [Registry.readMetadata, htext]

end Importer

end StyleImport
