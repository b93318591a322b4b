/-
Paths below the token for the root.

The root goes three ways.  An import binds the token to it as it is written in the settings, a
stylesheet joins segments to what the token is bound to, and the sandbox has a normal form of its
own.  All three are compared by the names of normal forms, so a segment that starts over or goes up
is the only thing that can lead out.

* `Path.normalNames_prefix_joinAll` — segments that do neither lead down;
* `BindingRun.Rooted` — in a run of imports with one root, nobody offers another path for the token;
* `Query.answer_ne_denied` — the sandbox has nothing more to say about a path that it admits;
* `BindingRun.below_root_token` — where the paths below the token are, and which are admitted.
-/
import StyleImport.Proofs.Import.Bindings
import StyleImport.Proofs.Path.Joined
import StyleImport.Proofs.Query.Confined
import StyleImport.Proofs.Stylesheet.Shown

namespace StyleImport

namespace Path

/-! ### Segments below a directory -/

/-- Relative segments add their names to those of the directory. -/
theorem joinAll_of_relative (p : Text) {segments : List Text}
    (h : ∀ t ∈ segments, isAbsolute t = false) :
    isAbsolute (joinAll p segments) = isAbsolute p ∧
      components (joinAll p segments) = components p ++ segments.flatMap components := by
  induction segments generalizing p with
  | nil => exact ⟨rfl, (List.append_nil _).symm⟩
  | cons t segments ih =>
    have ht : isAbsolute t = false := h t List.mem_cons_self
    obtain ⟨habsolute, hnames⟩ := ih (join p t) fun u hu => h u (List.mem_cons_of_mem _ hu)
    refine ⟨habsolute.trans (isAbsolute_join_of_relative p ht), hnames.trans ?_⟩
    rw [components_join ht, List.append_assoc, List.flatMap_cons]

/-- Segments that neither start over nor go up lead down. -/
theorem normalNames_prefix_joinAll {cwd : Text} (hcwd : isAbsolute cwd = true) (p : Text)
    {segments : List Text} (h : ∀ t ∈ segments, isAbsolute t = false ∧ up ∉ components t) :
    normalNames cwd p <+: normalNames cwd (joinAll p segments) := by
  obtain ⟨habsolute, hnames⟩ := joinAll_of_relative p fun t ht => (h t ht).1
  have hup : up ∉ segments.flatMap components := by
    rw [List.mem_flatMap]
    rintro ⟨t, ht, hmem⟩
    exact (h t ht).2 hmem
  unfold normalNames
  rw [components_absolute hcwd, components_absolute hcwd, habsolute, hnames, moveAll_append]
  exact prefix_moveAll hup _

end Path

/-! ### Imports with one root -/

/-- A step of importers that all have one root: the host binds no token itself. -/
def BindingStep.ByImporters {σ : Type} (root : Text) : BindingStep σ → Prop
  | .call q => q.settings.root = root
  | .register .. => False
  | .turn _ | .readEnds _ | .change _ => True

namespace BindingRun

variable {σ : Type} {root : Text} {r : BindingRun σ}

/-- Everyone who asked for an import has the root, and nothing else was offered for its token. -/
structure Rooted (root : Text) (r : BindingRun σ) : Prop where
  calls : ∀ call ∈ r.calls, call.1.settings.root = root
  offers : ∀ path, (Registration.rootToken, path) ∈ r.offers → path = root

theorem rooted_start (root cwd : Text) (host : Host σ) (state : σ) :
    (start cwd host state).Rooted root :=
  ⟨by simp [start], by simp [start]⟩

theorem Rooted.turn (h : r.Rooted root) (k : Nat) : (r.turn k).Rooted root := by
  unfold BindingRun.turn
  split
  · exact h
  · exact h
  · rename_i q t _ hk
    have hq : q.settings.root = root := h.calls (q, t) (List.mem_of_getElem? hk)
    refine ⟨fun call hcall => ?_, fun path hpath => ?_⟩
    · rcases List.mem_or_eq_of_mem_set hcall with hcall | rfl
      · exact h.calls call hcall
      · exact hq
    · rcases List.mem_append.mp hpath with hpath | hpath
      · exact h.offers path hpath
      · -- The offer of a request for this token is its root.
        rw [Option.mem_toList, Request.offer, Option.map_eq_some_iff] at hpath
        obtain ⟨token, -, hoffer⟩ := hpath
        obtain ⟨rfl, rfl⟩ := Prod.mk.inj hoffer
        rw [Request.path, if_pos rfl]
        exact hq

theorem Rooted.step (h : r.Rooted root) {s : BindingStep σ} (hs : s.ByImporters root) :
    (r.step s).Rooted root := by
  cases s with
  | call q =>
    refine ⟨fun call hcall => ?_, h.offers⟩
    rcases List.mem_append.mp hcall with hcall | hcall
    · exact h.calls call hcall
    · obtain rfl := List.mem_singleton.mp hcall
      exact hs
  | turn k => exact h.turn k
  | readEnds k =>
    show (r.readEnds k).Rooted root
    unfold BindingRun.readEnds
    split
    · exact ⟨h.calls, h.offers⟩
    · exact h
  | change f => exact ⟨h.calls, h.offers⟩
  | register token path => exact hs.elim

theorem Rooted.steps (h : r.Rooted root) {ss : List (BindingStep σ)}
    (hss : ∀ s ∈ ss, s.ByImporters root) : (r.steps ss).Rooted root := by
  induction ss generalizing r with
  | nil => exact h
  | cons s ss ih =>
    exact ih (h.step (hss s List.mem_cons_self)) fun s' hs' => hss s' (List.mem_cons_of_mem _ hs')

/-- The token for the root is bound to the root or not at all. -/
theorem Rooted.bound?_eq (h : r.Rooted root) {cwd : Text} (hsound : r.Sound cwd) {path : Text}
    (hbound : r.compilation.session.bound? Registration.rootToken = some path) : path = root := by
  rw [Session.bound?, hsound.keepsFirst.get?_eq] at hbound
  exact h.offers path (Entries.mem_of_get? hbound)

/-- Once a registration of the token is over, the token stays bound to the root. -/
theorem bound?_rootToken {cwd : Text} (hnormal : Path.absolute cwd Path.here = cwd) {host : Host σ}
    {state : σ} {before after : List (BindingStep σ)} (himporters : ∀ s ∈ before, s.ByImporters root)
    {k : Nat} {q : Request} {x : Resolved}
    (htoken : Registration.token? q.identifier = some Registration.rootToken)
    (hover : (steps (start cwd host state) before).calls[k]? = some (q, .finished (.ok x))) :
    (steps (start cwd host state) (before ++ after)).compilation.session.bound?
      Registration.rootToken = some root := by
  have hsound := (sound_start cwd host state).steps hnormal before
  have hrooted := (rooted_start root cwd host state).steps himporters
  -- The registration has told the path that the token is bound to by now.
  have htells := hsound.tells hover
  unfold Tells at htells
  rw [htoken] at htells
  rcases htells with hready | ⟨path, -, hpath, -⟩
  · cases hready
  obtain rfl : path = root := hrooted.bound?_eq hsound hpath
  have hsteps : steps (start cwd host state) (before ++ after)
      = steps (steps (start cwd host state) before) after := List.foldl_append
  rw [hsteps]
  exact hsound.keepsFirst.stays (hsound.steps hnormal after).keepsFirst (offers_steps _ after) hpath

end BindingRun

/-! ### Admitted paths -/

/-- The sandbox of the root admits a path if the names of the root are its first ones. -/
theorem Settings.permits_normal_iff {cwd : Text} (hcwd : Path.isAbsolute cwd = true)
    {settings : Settings} (hsandbox : settings.fsSandbox = .rootOnly) (p : Text) :
    (settings.sandbox cwd).permits cwd (Path.absolute cwd p) = true ↔
      Path.normalNames cwd settings.root <+: Path.normalNames cwd p := by
  have hp : Path.normalNames cwd (Path.absolute cwd p) = Path.normalNames cwd p :=
    congrArg Path.components (Path.absolute_absolute hcwd p)
  rw [Settings.sandbox, hsandbox]
  show Sandbox.permits cwd (.ofRoots cwd [settings.root]) _ = true ↔ _
  rw [Sandbox.permits_ofRoots_iff hcwd, hp]
  simp only [List.mem_singleton, exists_eq_left]

namespace Query

variable {c : QueryContext} {p : Text}

theorem admittedPath_string (h : c.permits p = true) (isQuoted : Bool) :
    admittedPath c (.string p isQuoted) = .ok p := by
  have hcheck : c.check p = .ok () := by rw [QueryContext.check, if_pos h]
  simp only [admittedPath, Value.requireString, hcheck, bind, Except.bind, pure, Except.pure]

/-- What a failure to read becomes is no denial. -/
theorem asValue_readFailure_ne (p : Text) (failure : ReadFailure) (denied : Text) :
    asValue (.error (readFailure p failure)) ≠ .ok (.ofError (.denied denied)) := by
  cases failure <;> simp [asValue, readFailure, Value.ofError]

/-- A query about a file is never denied if its path is admitted. -/
theorem answer_ne_denied {q : Query} (hq : q = .exist ∨ q = .info ∨ q = .contents)
    (h : c.permits p = true) (registered : Option Value) (isQuoted : Bool) (denied : Text) :
    answer c registered q [.string p isQuoted] ≠ .ok (.ofError (.denied denied)) := by
  have hpath := admittedPath_string h isQuoted
  rcases hq with rfl | rfl | rfl
  · rw [answer_exist hpath]
    simp [Value.ofError]
  · unfold answer
    simp only [compute, hpath, bind, Except.bind]
    cases c.disk.lookup p with
    | error failure => exact asValue_readFailure_ne p failure denied
    | ok found => simp [Except.mapError, asValue, facts, record, Value.ofError, pure, Except.pure]
  · unfold answer
    simp only [compute, hpath, bind, Except.bind]
    cases c.disk.readText p with
    | error failure => exact asValue_readFailure_ne p failure denied
    | ok t => simp [Except.mapError, asValue, Value.quoted, Value.ofError, pure, Except.pure]

end Query

namespace BindingRun

variable {σ : Type}

/-- **Paths below the token for the root are usable in the sandbox of the root.**  In every run of
importers that share a session and have the root of some settings whose sandbox is the root alone,
from the moment on in which a registration of the token is over, whatever the stylesheet's map has:

* a query for a path below the token answers with the segments joined to the root, in normal form;
* the sandbox admits that path exactly if the names of the root are the first names of the join,
  both in normal form;
* it does if no segment is absolute or has a way up among its names, and then the queries whether
  the path is there, what is known about it and what its text is are never denied. -/
theorem below_root_token {cwd : Text} (hcwd : Path.isAbsolute cwd = true)
    (hnormal : Path.normalize cwd = cwd) {settings : Settings}
    (hsandbox : settings.fsSandbox = .rootOnly) (host : Host σ) (state : σ)
    {before after : List (BindingStep σ)}
    (himporters : ∀ s ∈ before ++ after, s.ByImporters settings.root) {k : Nat} {q : Request}
    {x : Resolved} (htoken : Registration.token? q.identifier = some Registration.rootToken)
    (hover : (steps (start cwd host state) before).calls[k]? = some (q, .finished (.ok x)))
    {d : Disk} (hdisk : d.cwdPath = cwd) (registered : Option Value) (isQuoted : Bool)
    (segments : List (Text × Bool)) :
    let session := (steps (start cwd host state) (before ++ after)).compilation.session
    let c : QueryContext := ⟨d, settings.sandbox cwd, session⟩
    let joined := Path.joinAll settings.root (segments.map Prod.fst)
    let p := Path.absolute cwd joined
    Query.answer c registered .absolutePath
        (.string Registration.rootToken isQuoted :: segments.map fun (t, b) => .string t b)
      = .ok (.quoted p) ∧
    (c.check p = .ok () ↔ Path.normalNames cwd settings.root <+: Path.normalNames cwd joined) ∧
    ((∀ t ∈ segments.map Prod.fst, Path.isAbsolute t = false ∧ Path.up ∉ Path.components t) →
      c.permits p = true ∧
      ∀ query, query = .exist ∨ query = .info ∨ query = .contents → ∀ denied,
        Query.answer c registered query [.quoted p] ≠ .ok (.ofError (.denied denied))) := by
  intro session c joined p
  have hhere : Path.absolute cwd Path.here = cwd := (Path.absolute_here hcwd).trans hnormal
  have hbound : session.bound? Registration.rootToken = some settings.root :=
    bound?_rootToken hhere (fun s hs => himporters s (List.mem_append_left _ hs)) htoken hover
  have hpermits : c.permits p = true ↔
      Path.normalNames cwd settings.root <+: Path.normalNames cwd joined := by
    show (settings.sandbox cwd).permits d.cwdPath p = true ↔ _
    rw [hdisk]
    exact Settings.permits_normal_iff hcwd hsandbox joined
  refine ⟨?_, ?_, fun hsegments => ?_⟩
  · rw [Query.answer_absolutePath_of_bound (c := c) hbound, Value.mapM_requireString_strings]
    show Query.asValue (.ok (.quoted (Path.absolute d.cwdPath joined))) = _
    rw [hdisk]
    rfl
  · rw [← hpermits, QueryContext.check]
    split <;> simp_all
  · have hadmitted : c.permits p = true :=
      hpermits.mpr (Path.normalNames_prefix_joinAll hcwd settings.root hsegments)
    exact ⟨hadmitted, fun query hquery denied =>
      Query.answer_ne_denied hquery hadmitted registered true denied⟩

/-- A root that is given from the working directory, and a second registration after the one of the
root. -/
theorem below_root_token_of_relative_root :
    let host : Host Unit :=
      { isFile := fun _ _ => true, lookup := fun _ _ s => (.ok none, s)
        read := fun _ s => (.ok [], s), ask := fun _ _ s => (.ok none, s), note := fun _ s => s }
    let settings : Settings := { root := ['.', '.', '/', 's'], fsSandbox := .rootOnly }
    let request := fun identifier : Text => (⟨settings, false, false, identifier, []⟩ : Request)
    let run := steps (start ['/', 'w'] host ())
      ([.call (request ['f', 's', '(', 'r', 'o', 'o', 't', ')']), .turn 0]
        ++ [.call (request ['f', 's', '(', 'a', 'b', ')']), .turn 1])
    let c : QueryContext :=
      ⟨{ top := [], cwd := [['w']] }, settings.sandbox ['/', 'w'], run.compilation.session⟩
    Query.answer c none .absolutePath
        [.quoted Registration.rootToken, .quoted ['.', '/', 'a'], .quoted ['b']]
      = .ok (.quoted ['/', 's', '/', 'a', '/', 'b']) ∧
    c.permits ['/', 's', '/', 'a', '/', 'b'] = true := by
  intro host settings request run c
  obtain ⟨x, hover⟩ : ∃ x, (steps (start ['/', 'w'] host ())
      [.call (request ['f', 's', '(', 'r', 'o', 'o', 't', ')']), .turn 0]).calls[0]?
        = some (request ['f', 's', '(', 'r', 'o', 'o', 't', ')'], .finished (.ok x)) := ⟨_, rfl⟩
  have himporters : ∀ s ∈ ([.call (request ['f', 's', '(', 'r', 'o', 'o', 't', ')']), .turn 0]
      ++ [.call (request ['f', 's', '(', 'a', 'b', ')']), .turn 1] : List (BindingStep Unit)),
      s.ByImporters settings.root := by
    simp [BindingStep.ByImporters, request]
  have hcwd : Path.isAbsolute ['/', 'w'] = true := rfl
  have hsandbox : settings.fsSandbox = .rootOnly := rfl
  obtain ⟨hanswer, -, hadmitted⟩ := below_root_token hcwd (by decide) hsandbox host () himporters
    (by decide) hover (d := { top := [], cwd := [['w']] }) (by decide) none true
    [(['.', '/', 'a'], true), (['b'], true)]
  exact ⟨hanswer, (hadmitted (by decide)).1⟩

end BindingRun

end StyleImport
