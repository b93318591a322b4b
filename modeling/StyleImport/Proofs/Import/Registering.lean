/-
What imports do to the bindings of tokens.

* `KeepsFirst` — bindings that keep the first path offered for each token, in order;
* `Plan.BindsNothing`, `Importer.bindsNothing_resolve` — imports that are no registrations leave the
  bindings alone;
* `Importer.advance_bindToken` — a registration is over on one turn, with the path that the token is
  bound to by then;
* `Request.advance_plan` — and so is a request for one, whose offer (`Request.offer`) is said of the
  request alone.
-/
import StyleImport.Import.Resolve
import StyleImport.Proofs.Import.Attribution
import StyleImport.Proofs.Import.Locate
import StyleImport.Proofs.Path.Places
import StyleImport.Proofs.Sandbox

namespace StyleImport

namespace Path

/-- The dot is the working directory. -/
theorem absolute_here {cwd : Text} (hcwd : isAbsolute cwd = true) :
    absolute cwd here = normalize cwd := by
  have hdot : components here = [here] := by decide
  rw [absolute_of_relative hcwd rfl, normalize_of_isAbsolute hcwd, hdot, moveAll_append,
    moveAll_cons, move_here, moveAll_nil]

end Path

/-! ### First offers -/

namespace Entries

variable {κ α : Type} [DecidableEq κ]

/-- The first entry of a key counts. -/
theorem get?_append (k : κ) (es es' : List (κ × α)) :
    get? k (es ++ es') = (get? k es).or (get? k es') := by
  induction es with
  | nil => rfl
  | cons e es ih =>
    obtain ⟨k', v⟩ := e
    by_cases h : k' = k
    · simp [get?, getBy?, h]
    · simpa [get?, getBy?, h] using ih

end Entries

/-- The bindings are the paths that were offered first, in the order of the first offers. -/
structure KeepsFirst (bindings offers : List (Text × Text)) : Prop where
  /-- A token is bound to the first path that was offered for it. -/
  get?_eq : ∀ token, Entries.get? token bindings = Entries.get? token offers
  /-- Tokens come in the order in which they were first bound. -/
  keys_eq : Entries.keys bindings = Sandbox.firstCopies (Entries.keys offers)

namespace KeepsFirst

theorem empty : KeepsFirst [] [] := ⟨fun _ => rfl, rfl⟩

variable {bindings offers : List (Text × Text)}

theorem mem_keys_iff (h : KeepsFirst bindings offers) (token : Text) :
    token ∈ Sandbox.firstCopies (Entries.keys offers) ↔
      ∃ p, Entries.get? token bindings = some p := by
  rw [← h.keys_eq, Entries.mem_keys_iff]

theorem keys_concat (token path : Text) :
    Sandbox.firstCopies (Entries.keys (offers ++ [(token, path)]))
      = if (Sandbox.firstCopies (Entries.keys offers)).contains token then
          Sandbox.firstCopies (Entries.keys offers)
        else Sandbox.firstCopies (Entries.keys offers) ++ [token] := by
  simp only [Sandbox.firstCopies, Entries.keys, List.map_append, List.foldl_append, List.map_cons,
    List.map_nil, List.foldl_cons, List.foldl_nil]
  rfl

/-- One more offer binds its token unless it is bound. -/
theorem register (h : KeepsFirst bindings offers) (token path : Text) :
    KeepsFirst (if (Entries.get? token bindings).isSome then bindings
      else bindings ++ [(token, path)]) (offers ++ [(token, path)]) := by
  cases hbound : Entries.get? token bindings with
  | some p =>
    have hold : (Sandbox.firstCopies (Entries.keys offers)).contains token = true :=
      List.contains_iff_mem.mpr ((h.mem_keys_iff token).mpr ⟨p, hbound⟩)
    refine ⟨fun t => ?_, ?_⟩
    · rw [Entries.get?_append, Option.isSome_some, if_pos rfl, h.get?_eq]
      by_cases ht : token = t
      · subst ht
        rw [← h.get?_eq, hbound, Option.some_or]
      · simp [Entries.get?, Entries.getBy?, ht]
    · rw [keys_concat, if_pos hold]
      exact h.keys_eq
  | none =>
    have hnew : ¬ (Sandbox.firstCopies (Entries.keys offers)).contains token = true := by
      rw [List.contains_iff_mem, h.mem_keys_iff]
      simp [hbound]
    refine ⟨fun t => ?_, ?_⟩
    · rw [Option.isSome_none, if_neg Bool.false_ne_true, Entries.get?_append, Entries.get?_append,
        h.get?_eq]
    · rw [keys_concat, if_neg hnew, ← h.keys_eq]
      simp [Entries.keys]

/-- What is bound stays bound, whatever else is offered. -/
theorem stays (h : KeepsFirst bindings offers) {bindings' offers' : List (Text × Text)}
    (h' : KeepsFirst bindings' offers') (hmore : offers <+: offers') {token path : Text}
    (hbound : Entries.get? token bindings = some path) :
    Entries.get? token bindings' = some path := by
  obtain ⟨more, rfl⟩ := hmore
  rw [h'.get?_eq, Entries.get?_append, ← h.get?_eq, hbound, Option.some_or]

end KeepsFirst

namespace Session

/-- A registration tells the path that the token is bound to in the end. -/
theorem fst_register (s : Session) (token path : Text) :
    (s.register token path).1 = (s.bound? token).getD path := by
  unfold register bound?
  cases Entries.get? token s.bindings <;> rfl

theorem bindings_register (s : Session) (token path : Text) :
    (s.register token path).2.1.bindings
      = if (s.bound? token).isSome then s.bindings else s.bindings ++ [(token, path)] := by
  unfold register bound?
  cases h : Entries.get? token s.bindings with
  | some p => rfl
  | none => exact Entries.put_of_get?_eq_none h path

/-- After a registration the token is bound to the path that it told. -/
theorem bound?_register_self (s : Session) (token path : Text) :
    (s.register token path).2.1.bound? token = some (s.register token path).1 := by
  rw [fst_register]
  cases h : s.bound? token with
  | some p => rw [bound?, bindings_register, h, Option.isSome_some, if_pos rfl, ← bound?, h]; rfl
  | none =>
    rw [bound?, bindings_register, h, Option.isSome_none, if_neg Bool.false_ne_true,
      Entries.get?_append, ← bound?, h]
    simp [Entries.get?, Entries.getBy?]

end Session

/-! ### Imports that bind nothing -/

namespace Compilation

variable {σ : Type} (s : Compilation σ)

theorem arrive_binds_nothing (path : Text) :
    (s.arrive path).2.2.cwd = s.cwd ∧
      (s.arrive path).2.2.session.bindings = s.session.bindings := by
  unfold arrive
  dsimp only
  split <;> exact ⟨rfl, rfl⟩

theorem complete_binds_nothing (path : Text) (ticket : Nat) :
    (s.complete path ticket).2.cwd = s.cwd ∧
      (s.complete path ticket).2.session.bindings = s.session.bindings := by
  unfold complete
  split <;> exact ⟨rfl, rfl⟩

theorem mark_binds_nothing (file : Text) :
    (s.mark file).2.cwd = s.cwd ∧ (s.mark file).2.session.bindings = s.session.bindings := by
  unfold mark Session.mark
  dsimp only
  split <;> exact ⟨rfl, rfl⟩

end Compilation

namespace Plan

variable {σ α β : Type}

/-- A plan that registers no path. -/
def BindsNothing : Plan α → Prop
  | done _ | fail _ => True
  | isFile _ next => ∀ b, (next b).BindsNothing
  | lookup _ _ next => ∀ r, (next r).BindsNothing
  | read _ next => ∀ o, (next o).BindsNothing
  | askHost _ _ next => ∀ r, (next r).BindsNothing
  | mark _ next => ∀ b, (next b).BindsNothing
  | register .. => False
  | note _ next => next.BindsNothing
  | pause next => next.BindsNothing

theorem BindsNothing.bind {p : Plan α} {f : α → Plan β} (hp : p.BindsNothing)
    (hf : ∀ a, (f a).BindsNothing) : (p.bind f).BindsNothing := by
  induction p with
  | done a => exact hf a
  | fail e => trivial
  | register token path next => exact hp.elim
  | note e next ih => exact ih hp
  | pause next ih => exact ih hp
  | _ => rename_i ih; exact fun a => ih a (hp a)

theorem LooksOnly.bindsNothing {p : Plan α} (hp : p.LooksOnly) : p.BindsNothing := by
  induction p with
  | done | fail => trivial
  | isFile p next ih => exact fun b => ih b (hp b)
  | lookup name context next ih => exact fun r => ih r (hp r)
  | note e next ih => exact ih hp
  | _ => exact hp.elim

theorem BindsNothing.unhurried {p : Plan α} (hp : p.BindsNothing) : p.unhurried.BindsNothing := by
  induction p with
  | done | fail => trivial
  | register token path next => exact hp.elim
  | note e next ih => exact ih hp
  | pause next ih => exact ih hp
  | _ => rename_i ih; exact fun a => ih a (hp a)

/-- A plan that registers no path leaves the bindings as they are. -/
theorem BindsNothing.bindings_run {p : Plan α} (hp : p.BindsNothing) (s : Compilation σ) :
    (p.run s).2.session.bindings = s.session.bindings := by
  induction p generalizing s with
  | done | fail => rfl
  | isFile p next ih => exact ih _ (hp _) s
  | lookup name context next ih =>
    rw [run, Compilation.lookup]
    rcases s.host.lookup name context s.state with ⟨e | r, state⟩
    · rfl
    · exact ih r (hp r) { s with state }
  | read p next ih =>
    have hread : (s.readOnce p).2.session.bindings = s.session.bindings :=
      (Compilation.complete_binds_nothing _ p _).2.trans (s.arrive_binds_nothing p).2
    exact (ih _ (hp _) _).trans hread
  | askHost identifier prev next ih =>
    rw [run, Compilation.ask]
    rcases s.host.ask identifier prev s.state with ⟨e | r, state⟩
    · rfl
    · exact ih r (hp r) { s with state }
  | mark file next ih => exact (ih _ (hp _) (s.mark file).2).trans (s.mark_binds_nothing file).2
  | register token path next => exact hp.elim
  | note e next ih => exact ih hp (s.noteAll [e])
  | pause next ih => exact ih hp s

end Plan

namespace Task

variable {σ α : Type}

/-- A task that registers no path. -/
def BindsNothing : Task α → Prop
  | ready plan => plan.BindsNothing
  | waiting _ _ next => ∀ o, (next o).BindsNothing
  | finished _ => True

/-- The turn of a plan that registers no path. -/
theorem bindsNothing_advance {p : Plan α} (hp : p.BindsNothing) (s : Compilation σ) :
    (p.advance s).1.BindsNothing ∧ (p.advance s).2.cwd = s.cwd ∧
      (p.advance s).2.session.bindings = s.session.bindings := by
  induction p generalizing s with
  | done | fail => exact ⟨trivial, rfl, rfl⟩
  | isFile p next ih => exact ih _ (hp _) s
  | lookup name context next ih =>
    rw [Plan.advance, Compilation.lookup]
    rcases s.host.lookup name context s.state with ⟨e | r, state⟩
    · exact ⟨trivial, rfl, rfl⟩
    · exact ih r (hp r) { s with state }
  | read p next ih =>
    exact ⟨hp, s.arrive_binds_nothing p⟩
  | askHost identifier prev next ih =>
    rw [Plan.advance, Compilation.ask]
    rcases s.host.ask identifier prev s.state with ⟨e | r, state⟩
    · exact ⟨trivial, rfl, rfl⟩
    · exact ih r (hp r) { s with state }
  | mark file next ih =>
    obtain ⟨htask, hcwd, hbindings⟩ := ih (s.mark file).1 (hp _) (s.mark file).2
    obtain ⟨hcwd', hbindings'⟩ := s.mark_binds_nothing file
    exact ⟨htask, hcwd.trans hcwd', hbindings.trans hbindings'⟩
  | register token path next => exact hp.elim
  | note e next ih => exact ih hp (s.noteAll [e])
  | pause next ih => exact ⟨hp, rfl, rfl⟩

/-- The turn of a task that registers no path. -/
theorem bindsNothing_step {t : Task α} (ht : t.BindsNothing) (s : Compilation σ) :
    (t.step s).1.BindsNothing ∧ (t.step s).2.cwd = s.cwd ∧
      (t.step s).2.session.bindings = s.session.bindings := by
  cases t with
  | ready plan => exact bindsNothing_advance ht s
  | finished r => exact ⟨trivial, rfl, rfl⟩
  | waiting p ticket next =>
    obtain ⟨htask, hcwd, hbindings⟩ := bindsNothing_advance (ht (s.complete p ticket).1)
      ((s.complete p ticket).2.resume p ticket (s.complete p ticket).1)
    obtain ⟨hcwd', hbindings'⟩ := s.complete_binds_nothing p ticket
    exact ⟨htask, hcwd.trans hcwd', hbindings.trans hbindings'⟩

end Task

namespace Importer

variable {σ : Type} (i : Importer)

theorem bindsNothing_importOnce (r : Resolved) : (i.importOnce r).BindsNothing := by
  intro first
  dsimp only
  split <;> trivial

theorem bindsNothing_orHost (identifier prev : Text) {onMiss : Plan Resolved}
    (h : onMiss.BindsNothing) : (orHost identifier prev id onMiss).BindsNothing := by
  intro answer
  cases answer with
  | none => exact h
  | some r => trivial

theorem bindsNothing_readFirst (name : Text) (probed paths : List Text) :
    (readFirst name probed paths).BindsNothing := by
  induction paths generalizing probed with
  | nil => trivial
  | cons p ps ih =>
    intro isFile
    cases isFile with
    | false => exact ih _
    | true =>
      have hread : (readCandidate p).BindsNothing := by
        rintro ((e | f | _) | t)
        · dsimp only
          split <;> trivial
        · trivial
        · trivial
        · trivial
      refine hread.bind fun found => ?_
      cases found with
      | none => exact ih _
      | some contents => trivial

theorem bindsNothing_resolveRelative (l : Located) (prev : Text) (withIncludes : Bool)
    (probed : List Text) : (i.resolveRelative l prev withIncludes probed).BindsNothing := by
  refine (bindsNothing_readFirst _ _ _).bind ?_
  rintro ⟨_ | r, probed'⟩
  · exact bindsNothing_orHost _ _ trivial
  · exact i.bindsNothing_importOnce r

theorem bindsNothing_resolveLocated (l : Located) (prev : Text) :
    (i.resolveLocated l prev).BindsNothing := by
  unfold resolveLocated
  split
  · exact i.bindsNothing_resolveRelative l prev true []
  · split
    · refine (bindsNothing_readFirst _ _ _).bind ?_
      rintro ⟨_ | r, probed⟩
      · exact bindsNothing_orHost l.identifier prev
          (i.bindsNothing_resolveRelative l prev false probed)
      · exact i.bindsNothing_importOnce r
    · split
      · exact i.bindsNothing_resolveRelative l prev true []
      · exact bindsNothing_orHost _ _ trivial

/-- Only registrations register. -/
theorem bindsNothing_resolve {identifier : Text} (h : Registration.token? identifier = none)
    (prev : Text) : (i.resolve identifier prev).BindsNothing := by
  unfold resolve
  rw [h]
  refine Plan.BindsNothing.bind ?_ fun _ => trivial
  exact (Located.looksOnly_locate _ _ _).bindsNothing.bind fun l =>
    i.bindsNothing_resolveLocated l prev

/-! ### Registrations -/

/-- A host that takes its time makes no difference to a registration. -/
theorem unhurried_resolveToken (token prev : Text) :
    (i.resolveToken token prev).unhurried = i.resolveToken token prev := by
  have honce : ∀ r, (i.importOnce r).unhurried = i.importOnce r := by
    intro r
    refine congrArg (Plan.mark r.file) (funext fun first => ?_)
    dsimp only
    split <;> rfl
  have hbind : ∀ path, (i.bindToken token path).unhurried = i.bindToken token path := fun path =>
    congrArg (Plan.register token path) (funext fun bound => congrArg (Plan.note _) (honce _))
  unfold resolveToken
  split
  · exact hbind _
  · exact congrArg (Plan.isFile prev) (funext fun isRealFile => hbind _)

/-- The turn that marks a file is the last one, and binds nothing. -/
theorem advance_importOnce (r : Resolved) (s : Compilation σ) :
    ∃ flag s', (i.importOnce r).advance s = (.finished (.ok { r with alreadyImported := flag }), s')
      ∧ s'.cwd = s.cwd ∧ s'.session.bindings = s.session.bindings := by
  have hmark := s.mark_binds_nothing r.file
  unfold importOnce
  rw [Plan.advance]
  dsimp only
  split
  · exact ⟨true, _, rfl, hmark⟩
  · exact ⟨r.alreadyImported, _, rfl, hmark⟩

/-- A registration is over on one turn, with the path that the token is bound to by then. -/
theorem advance_bindToken (token path : Text) (s : Compilation σ) :
    ∃ x s', (i.bindToken token path).advance s = (.finished (.ok x), s')
      ∧ x.file = Registration.file token (s.session.register token path).1
      ∧ x.contents = Registration.source token (s.session.register token path).1
      ∧ s'.cwd = s.cwd ∧ s'.session.bindings = (s.session.register token path).2.1.bindings := by
  obtain ⟨flag, s', hturn, hcwd, hbindings⟩ := i.advance_importOnce
    (registration token (s.session.register token path).1)
    ((s.register token path).2.noteAll [.detail .registrations
      ("[import:fs] " ++ token ++ " -> " ++ (s.session.register token path).1)])
  exact ⟨_, s', hturn, rfl, rfl, hcwd, hbindings⟩

end Importer

/-! ### Requests -/

/-- An import that somebody asks for, with settings of their own and a host that may take its
time. -/
structure Request where
  /-- The settings. -/
  settings : Settings
  /-- Whether separators are unified. -/
  unified : Bool
  /-- Whether the host takes its time. -/
  slow : Bool
  /-- The identifier. -/
  identifier : Text
  /-- The requesting file. -/
  prev : Text

namespace Request

variable {σ : Type}

/-- The plan of the import. -/
def plan (cwd : Text) (q : Request) : Plan Resolved :=
  let p := (⟨cwd, q.settings, q.unified⟩ : Importer).resolve q.identifier q.prev
  if q.slow then p.unhurried else p

/-- The path that a request offers for a token: the root for the token that stands for it, else the
directory of the requesting file, or the working directory if that is no file. -/
def path (cwd : Text) (isFile : Text → Bool) (q : Request) (token : Text) : Text :=
  if token = Registration.rootToken then q.settings.root
  else if isFile q.prev then Path.absolute cwd (Path.directory q.prev)
  else cwd

/-- The token of a request that is a registration, and the path that it offers. -/
def offer (cwd : Text) (isFile : Text → Bool) (q : Request) : Option (Text × Text) :=
  (Registration.token? q.identifier).map fun token => (token, q.path cwd isFile token)

theorem bindsNothing_plan {q : Request} (h : Registration.token? q.identifier = none) (cwd : Text) :
    (q.plan cwd).BindsNothing := by
  have hplan := (⟨cwd, q.settings, q.unified⟩ : Importer).bindsNothing_resolve h q.prev
  unfold plan
  dsimp only
  split
  · exact hplan.unhurried
  · exact hplan

/-- A request that is a registration registers what it offers, and is over. -/
theorem advance_plan {q : Request} {token : Text}
    (h : Registration.token? q.identifier = some token) {s : Compilation σ}
    (hnormal : Path.absolute s.cwd Path.here = s.cwd) :
    let told := s.session.register token (q.path s.cwd (s.host.isFile s.state) token)
    ∃ x s', (q.plan s.cwd).advance s = (.finished (.ok x), s')
      ∧ x.file = Registration.file token told.1 ∧ x.contents = Registration.source token told.1
      ∧ s'.cwd = s.cwd ∧ s'.session.bindings = told.2.1.bindings := by
  intro told
  let i : Importer := ⟨s.cwd, q.settings, q.unified⟩
  have hplan : q.plan s.cwd = i.resolveToken token q.prev := by
    unfold plan Importer.resolve
    rw [h]
    dsimp only
    rw [i.unhurried_resolveToken, ite_self]
  have hturn : (q.plan s.cwd).advance s
      = (i.bindToken token (q.path s.cwd (s.host.isFile s.state) token)).advance s := by
    rw [hplan, Importer.resolveToken, path]
    split
    · rfl
    · rw [Plan.advance, Importer.requestDirectory]
      split
      · rfl
      · rw [hnormal]
  rw [hturn]
  exact i.advance_bindToken token _ s

end Request

end StyleImport
