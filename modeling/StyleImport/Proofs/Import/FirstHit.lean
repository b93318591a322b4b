/-
The first candidate that can be read decides an import.

`Surroundings` are a file tree, a registry, a reader and a resolver of the host that answer as they
like, each of the last three in view of what it was asked before.  On a fresh session an import is a
search along one list of paths, `Importer.tries`: the candidates in the stylesheet directory of the
identifier's module, if it has one, and then those next to the requesting file.

* `Surroundings.search` — the search along a list of paths;
* `Importer.run_resolveLocated` — an import of a located identifier is this search;
* `Importer.first_hit` — so it is decided by the first path that is a file and is not gone by the
  time it is read.
-/
import StyleImport.Proofs.Import.Locate
import StyleImport.Proofs.Import.Search

namespace StyleImport

/-! ### The candidates of an import -/

namespace Importer

/-- The stylesheet directory of the module of a located identifier. -/
def stylesheetDir? (l : Located) : Option Text := l.record.bind (·.stylesheetDir)

/-- The candidates in the module of an identifier: below its stylesheet directory, and below the
directory of the module's own name in there. -/
def moduleTries (i : Importer) (l : Located) : List Text :=
  match stylesheetDir? l with
  | some dir => i.candidates l.relativePath [dir, Path.join dir (l.moduleName.getD [])]
  | none => []

/-- The candidates for the whole identifier as a path: below the directory of the requesting file or
the root, and then below each include path, seen from there; a module with a stylesheet directory
has no include paths. -/
def pathTries (i : Importer) (l : Located) : List Text :=
  i.candidates l.identifier (i.base l ::
    match stylesheetDir? l with
    | some _ => []
    | none => i.settings.includePaths.map fun p => Path.absolute i.cwd (Path.join (i.base l) p))

/-- The paths that an import tries, in order. -/
def tries (i : Importer) (l : Located) : List Text := i.moduleTries l ++ i.pathTries l

theorem tries_of_no_directory (i : Importer) {l : Located} (h : stylesheetDir? l = none) :
    i.tries l = i.relativeCandidates l true := by
  simp [tries, moduleTries, pathTries, h, relativeCandidates, includeLocations]

theorem tries_of_directory (i : Importer) {l : Located} {dir name : Text}
    (h : stylesheetDir? l = some dir) (hname : l.moduleName = some name) (hne : name ≠ []) :
    i.tries l = i.moduleCandidates dir name l.relativePath ++ i.relativeCandidates l false := by
  simp [tries, moduleTries, pathTries, h, hname, hne, moduleCandidates, moduleLocations,
    relativeCandidates]

/-- Paths that were tried are listed once, where they were tried first. -/
theorem foldl_addProbed (paths probed : List Text) :
    paths.foldl addProbed probed
      = probed ++ (paths.filter fun p => !probed.contains p).eraseDups := by
  induction paths generalizing probed with
  | nil => simp
  | cons p paths ih =>
    rw [List.foldl_cons, ih]
    by_cases hp : p ∈ probed
    · simp [addProbed, hp]
    · have hfilter : (paths.filter fun q => !(probed ++ [p]).contains q)
          = (paths.filter fun q => !probed.contains q).filter fun q => !q == p := by
        rw [List.filter_filter]
        congr 1
        funext q
        by_cases hq : q = p <;> simp [hq]
      have hadd : addProbed probed p = probed ++ [p] := by
        simp [addProbed, hp]
      rw [hadd, hfilter, List.filter_cons_of_pos (by simpa using hp), List.eraseDups_cons,
        List.append_assoc, List.singleton_append]

end Importer

/-! ### Surroundings that answer as they like -/

/-- A file tree, a registry and a reader.  The registry and the reader answer as they like, the
reader in view of all that it read before. -/
structure Surroundings where
  /-- Whether a path leads to a file. -/
  isFile : Text → Bool
  /-- The record of a module, seen from a place. -/
  lookup : Text → Text → Except Failure (Option ModuleRecord)
  /-- What comes of reading a path after others. -/
  read : List Text → Text → ReadOutcome

namespace Surroundings

/-- The surroundings as a host that remembers what it read.  Its own resolver never has an
answer. -/
def host (w : Surroundings) : Host (List Text) where
  isFile _ path := w.isFile path
  lookup name context reads := (w.lookup name context, reads)
  read path reads := (w.read reads path, reads ++ [path])
  ask _ _ reads := (.ok none, reads)
  note _ reads := reads

@[simp] theorem host_isFile (w : Surroundings) (reads : List Text) (path : Text) :
    w.host.isFile reads path = w.isFile path := rfl

@[simp] theorem host_lookup (w : Surroundings) (name context : Text) (reads : List Text) :
    w.host.lookup name context reads = (w.lookup name context, reads) := rfl

@[simp] theorem host_read (w : Surroundings) (path : Text) (reads : List Text) :
    w.host.read path reads = (w.read reads path, reads ++ [path]) := rfl

@[simp] theorem host_ask (w : Surroundings) (identifier prev : Text) (reads : List Text) :
    w.host.ask identifier prev reads = (.ok none, reads) := rfl

@[simp] theorem host_note (w : Surroundings) (e : Event) (reads : List Text) :
    w.host.note e reads = reads := rfl

/-- A compilation that starts in the surroundings. -/
def compilation (w : Surroundings) (cwd : Text) : Compilation (List Text) where
  cwd := cwd
  host := w.host
  session := {}
  state := []

/-- The search along paths after some reads: what it comes to, and all reads by then. -/
def search (w : Surroundings) (reads : List Text) : List Text → Search × List Text
  | [] => (.miss, reads)
  | p :: ps =>
    if w.isFile p then
      match Search.ofRead p (w.read reads p) with
      | .miss => w.search (reads ++ [p]) ps
      | found => (found, reads ++ [p])
    else w.search reads ps

/-- A path decides the search that came to it along the paths `before` if it is a file and reading
it is not a miss. -/
def Decides (w : Surroundings) (before : List Text) (path : Text) : Prop :=
  w.isFile path = true ∧ Search.ofRead path (w.read (before.filter w.isFile) path) ≠ .miss

variable {w : Surroundings}

/-- A search that comes to nothing goes on along the paths behind. -/
theorem search_append (reads paths more : List Text) :
    w.search reads (paths ++ more) = match w.search reads paths with
      | (.miss, reads') => w.search reads' more
      | found => found := by
  induction paths generalizing reads with
  | nil => rfl
  | cons p ps ih =>
    rw [List.cons_append, search, search]
    split
    · cases hread : Search.ofRead p (w.read reads p) with
      | miss => exact ih _
      | hit | broken => rfl
    · exact ih _

/-- Paths none of which decides the search are a miss. -/
theorem search_miss {paths : List Text} :
    ∀ before : List Text,
      (∀ front c back, paths = front ++ c :: back → ¬ w.Decides (before ++ front) c) →
      w.search (before.filter w.isFile) paths = (.miss, (before ++ paths).filter w.isFile) := by
  induction paths with
  | nil => intro before _; simp [search]
  | cons p ps ih =>
    intro before h
    -- Seen from behind `p`, the paths in front are one more.
    have hp : ¬ w.Decides before p := by simpa using h [] p ps rfl
    have hps : ∀ front c back, ps = front ++ c :: back →
        ¬ w.Decides (before ++ [p] ++ front) c := by
      intro front c back hsplit
      simpa using h (p :: front) c back (by simp [hsplit])
    have hrest := ih _ hps
    rw [List.append_assoc, List.singleton_append] at hrest
    rw [← hrest, search]
    by_cases hfile : w.isFile p = true
    · have hmiss : Search.ofRead p (w.read (before.filter w.isFile) p) = .miss :=
        not_not.mp fun hne => hp ⟨hfile, hne⟩
      simp [hfile, hmiss]
    · simp [hfile]

/-- Without a path that decides the search comes to nothing. -/
theorem search_of_not_decides {paths : List Text}
    (h : ∀ front c back, paths = front ++ c :: back → ¬ w.Decides front c) :
    w.search [] paths = (.miss, paths.filter w.isFile) := by
  have hmiss := search_miss [] (by simpa using h)
  rwa [List.nil_append, List.filter_nil] at hmiss

/-- The first path that decides ends the search. -/
theorem search_of_decides {before : List Text} {c : Text}
    (hbefore : ∀ front d back, before = front ++ d :: back → ¬ w.Decides front d)
    (hc : w.Decides before c) (after : List Text) :
    w.search [] (before ++ c :: after)
      = (Search.ofRead c (w.read (before.filter w.isFile) c), before.filter w.isFile ++ [c]) := by
  rw [search_append, search_of_not_decides hbefore]
  dsimp only
  rw [search, if_pos hc.1]
  split
  · rename_i hmiss
    exact absurd hmiss hc.2
  · rfl

/-! ### An import in the surroundings -/

/-- A compilation in the surroundings that read nothing with success so far. -/
structure Searching (w : Surroundings) (cwd : Text) (reads : List Text)
    (s : Compilation (List Text)) : Prop where
  host : s.host = w.host
  cwd : s.cwd = cwd
  state : s.state = reads
  tickets : s.session.desk.tickets = []
  imported : s.session.imported = []

theorem searching_compilation (w : Surroundings) (cwd : Text) :
    w.Searching cwd [] (w.compilation cwd) := ⟨rfl, rfl, rfl, rfl, rfl⟩

variable {cwd : Text} {reads : List Text} {s : Compilation (List Text)}

theorem noteAll_of_host (h : s.host = w.host) (events : List Event) : s.noteAll events = s := by
  have hfold : events.foldl (fun reads e => s.host.note e reads) s.state = s.state := by
    rw [h]
    induction events with
    | nil => rfl
    | cons e es ih => exact ih
  rw [Compilation.noteAll, hfold]

/-- Whoever comes for a path while nothing is on the desk starts a read, and takes it off the desk
again if it fails. -/
theorem readOnce_of_searching (h : w.Searching cwd reads s) {path : Text}
    (hpath : Path.absolute cwd path = path) :
    ∃ s', s.readOnce path = (w.read reads path, s') ∧ s'.host = w.host ∧
      s'.state = reads ++ [path] ∧ s'.session.imported = [] ∧
      ∀ e, w.read reads path = .error e → w.Searching cwd (reads ++ [path]) s' := by
  obtain ⟨dir, host, ⟨⟨tickets, outcomes⟩, imported, bindings⟩, state⟩ := s
  obtain ⟨rfl, rfl, rfl, rfl, rfl⟩ := h
  dsimp only at hpath
  have hrun : Compilation.readOnce ⟨dir, w.host, ⟨⟨[], outcomes⟩, [], bindings⟩, state⟩ path
      = (w.read state path, Compilation.resume
          ⟨dir, w.host, ⟨⟨[(path, outcomes.length)], (outcomes ++ [none]).set outcomes.length
            (some (w.read state path))⟩, [], bindings⟩, state ++ [path]⟩
          path outcomes.length (w.read state path)) := by
    simp [Compilation.readOnce, Compilation.arrive, Compilation.complete, Compilation.noteAll,
      ReadDesk.arrive, ReadDesk.complete, ReadDesk.outcome?, Entries.get?, Entries.getBy?,
      Entries.put, Entries.putBy, Compilation.key, hpath]
  refine ⟨_, hrun, rfl, rfl, rfl, ?_⟩
  intro e he
  rw [he]
  refine ⟨rfl, rfl, rfl, ?_, rfl⟩
  simp [Compilation.resume, ReadDesk.resume, Entries.get?, Entries.getBy?, Entries.erase,
    Entries.eraseBy, Compilation.key, hpath]

/-- A search among candidates is a search in the surroundings. -/
theorem run_readFirst_of_searching (name : Text) {paths : List Text}
    (hpaths : ∀ p ∈ paths, Path.absolute cwd p = p) (probed : List Text)
    (h : w.Searching cwd reads s) :
    ∃ probed' s', (Importer.readFirst name probed paths).run s
        = (Importer.searchResult probed' (w.search reads paths).1, s') ∧
      s'.state = (w.search reads paths).2 ∧ s'.session.imported = [] ∧
      ((w.search reads paths).1 = .miss →
        probed' = paths.foldl Importer.addProbed probed ∧
          w.Searching cwd (w.search reads paths).2 s') := by
  induction paths generalizing probed reads s with
  | nil => exact ⟨probed, s, rfl, h.state, h.imported, fun _ => ⟨rfl, h⟩⟩
  | cons p ps ih =>
    have hps : ∀ q ∈ ps, Path.absolute cwd q = q := fun q hq => hpaths q (List.mem_cons_of_mem _ hq)
    have hfile : s.host.isFile s.state p = w.isFile p := by rw [h.host, host_isFile]
    -- The plan and the search look at `p` alike, and read it alike if it is a file.
    rw [Importer.readFirst, Plan.run, hfile, search]
    cases hp : w.isFile p with
    | false => exact ih hps (Importer.addProbed probed p) h
    | true =>
      obtain ⟨s₁, hread, hhost, hstate, himported, hfailed⟩ :=
        readOnce_of_searching h (hpaths p List.mem_cons_self)
      simp only [Plan.run, Importer.readCandidate_eq, Plan.bind, hread, if_true]
      rcases hout : w.read reads p with e | t
      · cases hmissing : e.isMissing with
        | true =>
          simp only [Search.ofRead, hmissing, if_true, Plan.bind]
          exact ih hps (Importer.addProbed probed p) (hfailed e hout)
        | false =>
          simp only [Search.ofRead, hmissing, Bool.false_eq_true, if_false, Plan.bind, Plan.run]
          exact ⟨probed, s₁, rfl, hstate, himported, by simp⟩
      · simp only [Search.ofRead, Plan.bind, Plan.run]
        refine ⟨Importer.addProbed probed p, s₁.noteAll _, rfl, ?_, himported, by simp⟩
        rw [noteAll_of_host hhost, hstate]

/-- What an import comes to after a search along the paths `tried`. -/
def conclude (l : Located) (prev : Text) (tried : List Text) : Search → Except Failure Resolved
  | .miss => .error (.promised (.notFound l.identifier tried prev))
  | .hit path contents => .ok { contents, file := path }
  | .broken path e => .error (Importer.readError path e)

/-- The first import of a file is not marked as one of many. -/
theorem run_importOnce_first (i : Importer) (r : Resolved) (h : s.session.imported = []) :
    ∃ s', (i.importOnce r).run s = (.ok r, s') ∧ s'.state = s.state := by
  have hfirst : (s.mark r.file).1 = true := by
    simp [Compilation.mark, Session.mark, h]
  refine ⟨(s.mark r.file).2, ?_, by simp only [Compilation.mark]⟩
  unfold Importer.importOnce
  simp only [Plan.run]
  rw [hfirst, Bool.not_true, Bool.and_false, if_neg Bool.false_ne_true]
  rfl

/-- The host's own resolver has no answer. -/
theorem run_orHost_of_searching {identifier prev : Text} (h : w.Searching cwd reads s)
    (onMiss : Plan Resolved) :
    (Importer.orHost identifier prev id onMiss).run s = onMiss.run s := by
  have hask : s.ask identifier prev = (.ok none, s) := by
    obtain ⟨_, host, _, _⟩ := s
    obtain rfl : host = w.host := h.host
    rfl
  rw [Importer.orHost, Plan.run, hask]

/-- An identifier looked up as a path, after the paths `probed` were tried in vain. -/
theorem run_resolveRelative_of_searching {i : Importer} (hcwd : Path.isAbsolute i.cwd = true)
    (l : Located) (prev : Text) (withIncludes : Bool) (probed : List Text)
    (h : w.Searching i.cwd reads s) :
    ∃ s', (i.resolveRelative l prev withIncludes probed).run s
        = (conclude l prev ((i.relativeCandidates l withIncludes).foldl Importer.addProbed probed)
            (w.search reads (i.relativeCandidates l withIncludes)).1, s') ∧
      s'.state = (w.search reads (i.relativeCandidates l withIncludes)).2 := by
  have habs : ∀ p ∈ i.relativeCandidates l withIncludes, Path.absolute i.cwd p = p := by
    intro p hp
    exact Importer.absolute_of_mem_candidates hcwd hp
  obtain ⟨probed', s₁, hrun, hstate, himported, hmiss⟩ :=
    run_readFirst_of_searching l.identifier habs probed h
  unfold Importer.resolveRelative
  cases hfound : (w.search reads (i.relativeCandidates l withIncludes)).1 with
  | miss =>
    obtain ⟨rfl, hsearching⟩ := hmiss hfound
    rw [hfound] at hrun
    rw [Plan.run_bind_of_ok hrun]
    exact ⟨s₁, run_orHost_of_searching hsearching _, hstate⟩
  | hit path contents =>
    rw [hfound] at hrun
    rw [Plan.run_bind_of_ok hrun]
    obtain ⟨s₂, hrun', hstate'⟩ := run_importOnce_first i { contents, file := path } himported
    exact ⟨s₂, hrun', hstate'.trans hstate⟩
  | broken path e =>
    rw [hfound] at hrun
    rw [Plan.run_bind_of_error hrun]
    exact ⟨s₁, rfl, hstate⟩

/-- A located identifier looked up in the surroundings: one search along all of its paths. -/
theorem run_resolveLocated_of_searching {i : Importer} (hcwd : Path.isAbsolute i.cwd = true)
    {l : Located} (prev : Text)
    (hname : ∀ r, l.record = some r → ∃ name, l.moduleName = some name ∧ name ≠ [])
    (hreal : ∀ r, l.record = some r → r.stylesheetDir = none → l.isRealFile = true)
    (h : w.Searching i.cwd reads s) :
    ∃ s', (i.resolveLocated l prev).run s
        = (conclude l prev (i.tries l).eraseDups (w.search reads (i.tries l)).1, s') ∧
      s'.state = (w.search reads (i.tries l)).2 := by
  have htried : ∀ paths : List Text, paths.foldl Importer.addProbed [] = paths.eraseDups := by
    intro paths
    rw [Importer.foldl_addProbed, List.nil_append, List.filter_eq_self.mpr (by simp)]
  -- Without a module, or with one that declares no directory, there is one phase.
  have hpath : Importer.stylesheetDir? l = none →
      ∃ s', (i.resolveRelative l prev true []).run s
          = (conclude l prev (i.tries l).eraseDups (w.search reads (i.tries l)).1, s') ∧
        s'.state = (w.search reads (i.tries l)).2 := by
    intro hnone
    rw [i.tries_of_no_directory hnone, ← htried]
    exact run_resolveRelative_of_searching hcwd l prev true [] h
  unfold Importer.resolveLocated
  cases hrecord : l.record with
  | none => exact hpath (by simp [Importer.stylesheetDir?, hrecord])
  | some r =>
    dsimp only
    cases hdir : r.stylesheetDir with
    | none =>
      dsimp only
      rw [if_pos (hreal r hrecord hdir)]
      exact hpath (by simp [Importer.stylesheetDir?, hrecord, hdir])
    | some dir =>
      obtain ⟨name, hmodule, hne⟩ := hname r hrecord
      have hsome : Importer.stylesheetDir? l = some dir := by
        simp [Importer.stylesheetDir?, hrecord, hdir]
      rw [i.tries_of_directory hsome hmodule hne, search_append]
      dsimp only [Importer.resolveInModule]
      rw [hmodule, Option.getD_some]
      set paths := i.moduleCandidates dir name l.relativePath with hpaths
      have habs : ∀ p ∈ paths, Path.absolute i.cwd p = p := by
        intro p hp
        exact Importer.absolute_of_mem_candidates hcwd hp
      obtain ⟨probed, s₁, hrun, hstate, himported, hmiss⟩ :=
        run_readFirst_of_searching l.relativePath habs [] h
      rcases hfound : w.search reads paths with ⟨_ | ⟨path, contents⟩ | ⟨path, e⟩, reads'⟩
      · -- The second phase starts after the reads of the first.
        rw [hfound] at hrun hmiss
        obtain ⟨rfl, hsearching⟩ := hmiss rfl
        rw [Plan.run_bind_of_ok hrun, ← htried, List.foldl_append]
        have hnote : s₁.noteAll [Importer.notInModuleEvent l.identifier dir] = s₁ :=
          noteAll_of_host hsearching.host _
        show ∃ s', Plan.run (Importer.orHost _ _ _ _) (s₁.noteAll _) = _ ∧ _
        rw [hnote, run_orHost_of_searching hsearching]
        exact run_resolveRelative_of_searching hcwd l prev false _ hsearching
      · rw [hfound] at hrun hstate
        rw [Plan.run_bind_of_ok hrun]
        obtain ⟨s₂, hrun', hstate'⟩ := run_importOnce_first i { contents, file := path } himported
        exact ⟨s₂, hrun', hstate'.trans hstate⟩
      · rw [hfound] at hrun hstate
        rw [Plan.run_bind_of_error hrun]
        exact ⟨s₁, rfl, hstate⟩

/-- A plan that only looks changes nothing. -/
theorem run_of_looksOnly {α : Type} {p : Plan α} (hp : p.LooksOnly) (h : s.host = w.host) :
    (p.run s).2 = s := by
  induction p with
  | done | fail => rfl
  | isFile p next ih => exact ih _ (hp _)
  | lookup name context next ih =>
    have hlookup : s.lookup name context = (w.lookup name context, s) := by
      obtain ⟨_, host, _, _⟩ := s
      obtain rfl : host = w.host := h
      rfl
    rw [Plan.run, hlookup]
    cases w.lookup name context with
    | error e => rfl
    | ok r => exact ih r (hp r)
  | note e next ih =>
    rw [Plan.run, noteAll_of_host h]
    exact ih hp
  | _ => exact hp.elim

end Surroundings

namespace Importer

/-- **The first hit decides.**  An import from a module or a directory on a fresh session, in any
surroundings, whose identifier is located as `l` and, if it names a module without a stylesheet
directory, comes from a file:

* the first of the paths `i.tries l` that is a file and does not turn out to be missing when it is
  read decides: its contents are the result, and a failure to read it is the error, whatever comes
  after it.  The reader is called for the files in front of it and for it, in order, and for nothing
  else;
* if there is no such path, the error lists every path that was tried, once. -/
theorem first_hit (w : Surroundings) (i : Importer) (identifier prev : Text) {l : Located}
    (hcwd : Path.isAbsolute i.cwd = true)
    (hl : ((Located.locate i.settings.root identifier prev).run (w.compilation i.cwd)).1 = .ok l)
    (hreal : ∀ r, l.record = some r → r.stylesheetDir = none → l.isRealFile = true) :
    let result := ((i.resolveModule identifier prev).run (w.compilation i.cwd)).1
    let reads := ((i.resolveModule identifier prev).run (w.compilation i.cwd)).2.state
    (∀ before c after, i.tries l = before ++ c :: after →
      (∀ front d back, before = front ++ d :: back → ¬ w.Decides front d) → w.Decides before c →
        (∀ contents, w.read (before.filter w.isFile) c = .ok contents →
          result = .ok { contents, file := c }) ∧
        (∀ e, w.read (before.filter w.isFile) c = .error e → result = .error (readError c e)) ∧
        reads = before.filter w.isFile ++ [c]) ∧
    ((∀ front d back, i.tries l = front ++ d :: back → ¬ w.Decides front d) →
      result = .error (.promised (.notFound identifier (i.tries l).eraseDups prev)) ∧
        reads = (i.tries l).filter w.isFile) := by
  intro result reads
  -- Locating the identifier leaves the compilation as it is.
  have hlocate : (Located.locate i.settings.root identifier prev).run (w.compilation i.cwd)
      = (.ok l, w.compilation i.cwd) :=
    Prod.ext hl (Surroundings.run_of_looksOnly (Located.looksOnly_locate _ _ _) rfl)
  have hidentifier : l.identifier = identifier := (Located.locate_run hlocate).1
  obtain ⟨s', hrun, hstate⟩ := Surroundings.run_resolveLocated_of_searching hcwd prev
    (fun r hr => Located.moduleName_of_record hlocate hr) hreal (w.searching_compilation i.cwd)
  have hall : (i.resolveModule identifier prev).run (w.compilation i.cwd)
      = (Surroundings.conclude l prev (i.tries l).eraseDups (w.search [] (i.tries l)).1, s') :=
    (Plan.run_bind_of_ok hlocate _).trans hrun
  have hresult : result
      = Surroundings.conclude l prev (i.tries l).eraseDups (w.search [] (i.tries l)).1 :=
    congrArg Prod.fst hall
  have hreads : reads = (w.search [] (i.tries l)).2 :=
    (congrArg (fun r => r.2.state) hall).trans hstate
  constructor
  · intro before c after hsplit hbefore hc
    have hsearch := Surroundings.search_of_decides hbefore hc after
    rw [← hsplit] at hsearch
    rw [hresult, hreads, hsearch]
    refine ⟨?_, ?_, rfl⟩
    · intro contents hread
      rw [hread]
      rfl
    · intro e hread
      have hkept : e.isMissing = false := by
        have hne := hc.2
        rw [hread] at hne
        simpa [Search.ofRead] using hne
      rw [hread, Search.ofRead, hkept, if_neg Bool.false_ne_true]
      rfl
  · intro hnone
    have hsearch := Surroundings.search_of_not_decides hnone
    rw [hresult, hreads, hsearch]
    exact ⟨hidentifier ▸ rfl, rfl⟩

/-- The file of a module that is gone by the time it is read is passed over, and the next one
decides. -/
theorem first_hit_after_vanished :
    let w : Surroundings :=
      { isFile := fun _ => true
        lookup := fun _ _ => .ok (some { name := ['m'], stylesheetDir := some ['/', 'm'] })
        read := fun reads _ =>
          if reads = [] then .error (.system { code := 2, reason := [] }) else .ok ['x'] }
    let i : Importer := ⟨['/'], { root := ['/'], extensions := [['.', 'c']] }, false⟩
    ((i.resolveModule ['m', '/', 'a'] ['/', 'p']).run (w.compilation i.cwd)).1
        = .ok { contents := ['x'], file := ['/', 'm', '/', 'a', '.', 'c'] } ∧
      ((i.resolveModule ['m', '/', 'a'] ['/', 'p']).run (w.compilation i.cwd)).2.state
        = [['/', 'm', '/', 'a'], ['/', 'm', '/', 'a', '.', 'c']] := by
  intro w i
  let l : Located := ⟨['m', '/', 'a'], some ['m'], ['a'],
    some { name := ['m'], stylesheetDir := some ['/', 'm'] }, true, ['/', 'p']⟩
  have hsplit : i.tries l
      = [['/', 'm', '/', 'a']] ++ ['/', 'm', '/', 'a', '.', 'c'] :: (i.tries l).drop 2 := by
    simp only [i, l]
    decide +kernel
  have hbefore : ∀ front d back, [['/', 'm', '/', 'a']] = front ++ d :: back →
      ¬ w.Decides front d := by
    intro front d back hfront
    cases front with
    | nil =>
      rintro ⟨_, hne⟩
      exact hne rfl
    | cons f fs => simp at hfront
  obtain ⟨hcontents, _, hreads⟩ :=
    (first_hit w i ['m', '/', 'a'] ['/', 'p'] (l := l) rfl rfl fun _ _ _ => rfl).1
      _ _ _ hsplit hbefore ⟨rfl, by simp [w, Search.ofRead]⟩
  exact ⟨hcontents _ rfl, hreads⟩

end Importer

end StyleImport
