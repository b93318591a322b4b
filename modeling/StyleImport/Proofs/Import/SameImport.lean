/-
Identifiers that mean the same import.

What an import comes to on a fresh session depends on its identifier in three ways only: through the
module that the registry finds for it, through the path of what stands behind the name of that
module, and through the path of the identifier itself.

* `Surroundings.moduleOf` — the module that the registry finds;
* `Surroundings.moduleOf_congr` — it depends on the known names that end in the identifier;
* `Surroundings.map_found_locate` — what is located, by the names that are looked up;
* `Importer.Alike`, `Surroundings.conclusion_congr` — what is sought alike comes to the same;
* `Surroundings.outcome_congr` — and so do identifiers that agree in the three ways.
-/
import StyleImport.Proofs.Import.FirstHit
import StyleImport.Proofs.Module.Names

namespace StyleImport

/-- The failure without the identifier that it names. -/
def Failure.withoutIdentifier : Failure → Failure
  | .promised (.unrecognized _) => .promised (.unrecognized [])
  | .promised (.notFound _ tried prev) => .promised (.notFound [] tried prev)
  | e => e

/-! ### Names with the same path have the same candidates -/

theorem NameForm.of_congr {unified : Bool} (extensions : List Text) {s t : Text}
    (h : Uri.pathOf unified s = Uri.pathOf unified t) :
    of unified extensions s = of unified extensions t := by
  have hnil : Uri.pathOf unified [] = [] := by
    cases unified <;> decide
  have hpath : ∀ name : Text,
      (if name = [] then [] else Uri.pathOf unified name) = Uri.pathOf unified name := by
    intro name
    by_cases hname : name = []
    · rw [if_pos hname, hname, hnil]
    · rw [if_neg hname]
  unfold of
  rw [hpath, hpath, h]

theorem Importer.candidates_congr (i : Importer) {s t : Text}
    (h : Uri.pathOf i.unified s = Uri.pathOf i.unified t) (locations : List Text) :
    i.candidates s locations = i.candidates t locations := by
  rw [candidates, NameForm.of_congr _ h, candidates]

namespace Importer

/-- Located identifiers that are sought alike. -/
structure Alike (i : Importer) (l m : Located) : Prop where
  record : l.record = m.record
  isRealFile : l.isRealFile = m.isRealFile
  contextPath : l.contextPath = m.contextPath
  moduleName : ∀ r, l.record = some r →
    ∃ name, l.moduleName = some name ∧ m.moduleName = some name ∧ name ≠ []
  path : Uri.pathOf i.unified l.identifier = Uri.pathOf i.unified m.identifier
  inside : ∀ r, l.record = some r →
    Uri.pathOf i.unified l.relativePath = Uri.pathOf i.unified m.relativePath

theorem Alike.tries_eq {i : Importer} {l m : Located} (h : i.Alike l m) :
    i.tries l = i.tries m := by
  have hdir : stylesheetDir? l = stylesheetDir? m := by
    rw [stylesheetDir?, h.record, stylesheetDir?]
  have hmodule : i.moduleTries l = i.moduleTries m := by
    unfold moduleTries
    rw [← hdir]
    cases hsome : stylesheetDir? l with
    | none => rfl
    | some dir =>
      obtain ⟨r, hr, -⟩ := Option.bind_eq_some_iff.mp hsome
      obtain ⟨name, hl, hm, -⟩ := h.moduleName r hr
      rw [hl, hm]
      exact i.candidates_congr (h.inside r hr) _
  have hbase : i.base l = i.base m := by
    rw [base, base, h.isRealFile, h.contextPath]
  rw [tries, hmodule, tries, pathTries, pathTries, hbase, hdir, i.candidates_congr h.path]

end Importer

namespace ModuleName

theorem split_ne_none {identifier : Text} (hne : identifier ≠ [])
    (habs : Path.isAbsolute identifier = false) : split identifier ≠ none := by
  intro h
  unfold split at h
  split at h
  · cases h
  · rcases hs : segment identifier with ⟨first, rest⟩
    rw [hs] at h
    dsimp only at h
    split at h
    · rename_i hnil
      obtain ⟨hsplit, -, rfl | ⟨path, rfl⟩⟩ := segment_eq_iff.mp hs
      · exact hne (by simp [hsplit, hnil])
      · simp [hsplit, hnil, Path.isAbsolute] at habs
    · cases h

end ModuleName

/-- The module of a located identifier, if it has one: the name, the path inside and the record. -/
def Located.found? (l : Located) : Option (Text × Text × ModuleRecord) :=
  l.record.bind fun r => l.moduleName.map fun name => (name, l.relativePath, r)

theorem Located.found?_eq_some {l : Located} {name path : Text} {r : ModuleRecord} :
    l.found? = some (name, path, r) ↔
      l.record = some r ∧ l.moduleName = some name ∧ l.relativePath = path := by
  unfold found?
  cases l.record <;> cases l.moduleName <;> simp
  tauto

namespace Surroundings

variable (w : Surroundings)

/-! ### The module of an identifier -/

/-- The first of several names that the registry knows, with the path inside the module and the
record. -/
def firstKnown (context : Text) :
    List (Text × Text) → Except Failure (Option (Text × Text × ModuleRecord))
  | [] => .ok none
  | (name, path) :: more =>
    match w.lookup name context with
    | .error e => .error e
    | .ok (some r) => .ok (some (name, path, r))
    | .ok none => firstKnown context more

/-- The place that modules are seen from: the requesting file, or the root if that is no file. -/
def contextOf (root prev : Text) : Text := if w.isFile prev then prev else root

/-- The first of several names that the registry knows, and the record. -/
def known (context : Text) : List Text → Except Failure (Option (Text × ModuleRecord))
  | [] => .ok none
  | name :: more =>
    match w.lookup name context with
    | .error e => .error e
    | .ok (some r) => .ok (some (name, r))
    | .ok none => known context more

/-- The module that the registry finds for an identifier, if it finds one: the name and the
record. -/
def moduleOf (root identifier prev : Text) : Except Failure (Option (Text × ModuleRecord)) :=
  w.known (w.contextOf root prev) ((ModuleName.lookups identifier).map Prod.fst)

theorem map_firstKnown (context : Text) (names : List (Text × Text)) :
    (w.firstKnown context names).map (Option.map fun m => (m.1, m.2.2))
      = w.known context (names.map Prod.fst) := by
  induction names with
  | nil => rfl
  | cons m more ih =>
    rw [firstKnown, List.map_cons, known]
    rcases w.lookup m.1 context with e | _ | r
    · rfl
    · exact ih
    · rfl

variable {w}

theorem mem_of_firstKnown {context name path : Text} {r : ModuleRecord}
    {names : List (Text × Text)} (h : w.firstKnown context names = .ok (some (name, path, r))) :
    (name, path) ∈ names := by
  induction names with
  | nil => cases h
  | cons m more ih =>
    obtain ⟨name', path'⟩ := m
    rw [firstKnown] at h
    split at h
    · cases h
    · simp only [Except.ok.injEq, Option.some.injEq, Prod.mk.injEq] at h
      rw [h.1, h.2.1]
      exact List.mem_cons_self
    · exact List.mem_cons_of_mem _ (ih h)

theorem known_cons_of_unknown {context name : Text} (h : w.lookup name context = .ok none)
    (names : List Text) : w.known context (name :: names) = w.known context names := by
  rw [known, h]

/-- Only known names count. -/
theorem known_append_congr {context : Text} {a b : Option Text} {names names' : List Text}
    (h : w.known context names = w.known context names')
    (hab : ∀ name, w.lookup name context ≠ .ok none → (a = some name ↔ b = some name)) :
    w.known context (a.toList ++ names) = w.known context (b.toList ++ names') := by
  have hunknown : ∀ (c : Option Text) (names : List Text),
      (∀ name, c = some name → w.lookup name context = .ok none) →
        w.known context (c.toList ++ names) = w.known context names := by
    intro c names hc
    cases c with
    | none => rfl
    | some name => exact known_cons_of_unknown (hc name rfl) names
  by_cases hknown : ∃ name, w.lookup name context ≠ .ok none ∧ a = some name
  · obtain ⟨name, hname, rfl⟩ := hknown
    rw [(hab name hname).mp rfl, Option.toList_some, List.singleton_append, List.singleton_append,
      known, known, h]
  · push Not at hknown
    rw [hunknown a names fun name ha => by_contra fun hname => hknown name hname ha,
      hunknown b names' fun name hb => by_contra fun hname =>
        hknown name hname ((hab name hname).mpr hb), h]

/-- The names that are looked up are the scoped one, if there is one, and the first segment. -/
theorem known_lookups (w : Surroundings) (context : Text) {s : Text}
    (hdirect : (Uri.isRelative s || Path.isAbsolute s) = false) (hne : s ≠ []) :
    w.known context ((ModuleName.lookups s).map Prod.fst)
      = w.known context (((ModuleName.scoped? s).map Prod.fst).toList ++
          ((some (ModuleName.segment s).1).toList ++ [])) := by
  have hsplit := ModuleName.split_ne_none hne (Bool.or_eq_false_iff.mp hdirect).2
  rw [ModuleName.lookups, hdirect, if_neg Bool.false_ne_true]
  unfold ModuleName.split at hsplit ⊢
  rcases hscoped : ModuleName.scoped? s with _ | ⟨name, rest⟩
  · rcases hs : ModuleName.segment s with ⟨first, rest⟩
    rw [hscoped, hs] at hsplit
    have hfirst : first ≠ [] := fun h => hsplit (by rw [h]; rfl)
    have hslash : '/' ∉ first := (ModuleName.segment_eq_iff.mp hs).2.1
    simp only [hfirst, if_false, ModuleName.widen_of_no_slash hslash]
    split
    · -- The same name is looked up once more.
      simp only [List.map_cons, List.map_nil, Option.map_none, Option.toList_none,
        Option.toList_some, List.nil_append, List.append_nil]
      rcases hlookup : w.lookup first context with e | _ | r <;> simp [known, hlookup]
    · rfl
  · obtain ⟨⟨scope, last, rfl, -, hscope, hlast, -⟩, rfl, -⟩ :=
      ModuleName.scoped?_eq_some_iff.mp hscoped
    have hfirst : ModuleName.segment ('@' :: scope ++ '/' :: last ++ rest)
        = ('@' :: scope, '/' :: (last ++ rest)) := by
      rw [List.append_assoc]
      exact ModuleName.segment_scope hscope (last ++ rest)
    simp only [ModuleName.widen_scoped hscope hlast, hfirst]
    rfl

/-- Where the same known names end, the same module is found. -/
theorem moduleOf_congr {root prev s t : Text} (hsne : s ≠ []) (htne : t ≠ [])
    (hs : (Uri.isRelative s || Path.isAbsolute s) = false)
    (ht : (Uri.isRelative t || Path.isAbsolute t) = false)
    (h : ∀ name, ModuleName.IsName name → w.lookup name (w.contextOf root prev) ≠ .ok none →
      ((∃ path, ModuleName.Behind s name path) ↔ ∃ path, ModuleName.Behind t name path)) :
    w.moduleOf root s prev = w.moduleOf root t prev := by
  rw [moduleOf, moduleOf, known_lookups w _ hs hsne, known_lookups w _ ht htne]
  refine known_append_congr (known_append_congr rfl fun name hname => ?_) fun name hname => ?_
  · rw [Option.some.injEq, Option.some.injEq, ModuleName.segment_fst_eq_iff,
      ModuleName.segment_fst_eq_iff]
    exact and_congr_right fun hslash => h name (.inr hslash) hname
  · rw [ModuleName.map_fst_scoped?_eq_some_iff, ModuleName.map_fst_scoped?_eq_some_iff]
    exact and_congr_right fun hscoped => h name (.inl hscoped) hname

/-- What is located is found by the lookups of the names. -/
theorem map_found_locate (w : Surroundings) (cwd root prev : Text) {identifier : Text}
    (hne : identifier ≠ []) :
    ((Located.locate root identifier prev).run (w.compilation cwd)).1.map Located.found?
      = w.firstKnown (w.contextOf root prev) (ModuleName.lookups identifier) := by
  have hlookup : ∀ name context, (w.compilation cwd).lookup name context
      = (w.lookup name context, w.compilation cwd) := fun _ _ => rfl
  have hnote : ∀ events, (w.compilation cwd).noteAll events = w.compilation cwd :=
    noteAll_of_host rfl
  have hfile : (w.compilation cwd).host.isFile (w.compilation cwd).state prev = w.isFile prev := rfl
  have hcontext : (if w.isFile prev then prev else root) = w.contextOf root prev := rfl
  simp only [Located.locate, Plan.run, hfile, hcontext, ModuleName.lookups]
  by_cases hdirect : (Uri.isRelative identifier || Path.isAbsolute identifier) = true
  · rw [if_pos hdirect, if_pos hdirect]
    rfl
  · rw [if_neg hdirect, if_neg hdirect]
    have habs : Path.isAbsolute identifier = false :=
      Bool.eq_false_iff.mpr fun h => hdirect (by rw [h, Bool.or_true])
    cases hsplit : ModuleName.split identifier with
    | none => exact absurd hsplit (ModuleName.split_ne_none hne habs)
    | some m =>
      obtain ⟨name, path⟩ := m
      simp only [Located.lookupModule, firstKnown, Plan.bind, Plan.run, hlookup]
      rcases hname : w.lookup name (w.contextOf root prev) with e | _ | r
      · rfl
      · by_cases hscope : ModuleName.hasScope name = true
        · simp only [hscope, if_true, firstKnown, Plan.bind, Plan.run, hnote, hlookup]
          rcases w.lookup (ModuleName.widen name path).1 (w.contextOf root prev) with e | _ | r <;>
            rfl
        · simp only [hscope, Bool.false_eq_true, if_false, Plan.bind, Plan.run, firstKnown]
          rfl
      · rfl

/-! ### What an import comes to -/

/-- What an import comes to on a fresh session. -/
def outcome (w : Surroundings) (i : Importer) (identifier prev : Text) : Except Failure Resolved :=
  ((i.resolve identifier prev).run (w.compilation i.cwd)).1

variable {i : Importer}

/-- Located identifiers that are sought alike come to the same, up to how an error names them. -/
theorem conclusion_congr (hcwd : Path.isAbsolute i.cwd = true) (prev : Text) {l m : Located}
    (h : i.Alike l m) :
    ((i.resolveLocated l prev).run (w.compilation i.cwd)).1.mapError Failure.withoutIdentifier
      = ((i.resolveLocated m prev).run (w.compilation i.cwd)).1.mapError
          Failure.withoutIdentifier := by
  by_cases hbad : ∃ r, l.record = some r ∧ r.stylesheetDir = none ∧ l.isRealFile = false
  · -- The module has no stylesheet directory and nobody requests the import: an error at once.
    obtain ⟨r, hr, hnone, hroot⟩ := hbad
    have hfails : ∀ l : Located, l.record = some r → l.isRealFile = false →
        ((i.resolveLocated l prev).run (w.compilation i.cwd)).1
          = .error (.promised (Importer.missingDir r)) := by
      intro l hl hroot
      have hmissing : i.resolveLocated l prev = Importer.orHost l.identifier prev id
          (.fail (.promised (Importer.missingDir r))) := by
        simp [Importer.resolveLocated, hl, hnone, hroot]
      rw [hmissing]
      rfl
    rw [hfails l hr hroot, hfails m (h.record ▸ hr) (h.isRealFile ▸ hroot)]
  · have hok : ∀ r, l.record = some r → r.stylesheetDir = none → l.isRealFile = true := by
      intro r hr hnone
      by_contra hroot
      exact hbad ⟨r, hr, hnone, Bool.eq_false_iff.mpr hroot⟩
    obtain ⟨_, hl, -⟩ := run_resolveLocated_of_searching hcwd prev
      (fun r hr => (h.moduleName r hr).imp fun _ hname => ⟨hname.1, hname.2.2⟩) hok
      (w.searching_compilation i.cwd)
    obtain ⟨_, hm, -⟩ := run_resolveLocated_of_searching hcwd (l := m) prev
      (fun r hr => (h.moduleName r (h.record ▸ hr)).imp fun _ hname => hname.2)
      (fun r hr hnone => h.isRealFile ▸ hok r (h.record ▸ hr) hnone)
      (w.searching_compilation i.cwd)
    rw [hl, hm, h.tries_eq]
    cases (w.search [] (i.tries m)).1 <;> rfl

theorem outcome_eq (w : Surroundings) (i : Importer) {identifier : Text}
    (h : Registration.token? identifier = none) (prev : Text) :
    w.outcome i identifier prev
      = ((i.resolveModule identifier prev).run (w.compilation i.cwd)).1 := by
  rw [outcome, Importer.resolve, h]
  dsimp only
  rw [Plan.run_bind]
  rcases (i.resolveModule identifier prev).run (w.compilation i.cwd) with ⟨e | r, s⟩ <;> rfl

theorem run_resolveModule_eq (w : Surroundings) (i : Importer) (identifier prev : Text) :
    ((i.resolveModule identifier prev).run (w.compilation i.cwd)).1
      = (((Located.locate i.settings.root identifier prev).run (w.compilation i.cwd)).1).bind
          fun l => ((i.resolveLocated l prev).run (w.compilation i.cwd)).1 := by
  have hstate : ((Located.locate i.settings.root identifier prev).run (w.compilation i.cwd)).2
      = w.compilation i.cwd := run_of_looksOnly (Located.looksOnly_locate _ _ _) rfl
  rw [Importer.resolveModule, Plan.run_bind]
  rcases hrun : (Located.locate i.settings.root identifier prev).run (w.compilation i.cwd)
    with ⟨e | l, s⟩
  · rfl
  · rw [hrun] at hstate
    subst hstate
    rfl

/-- Identifiers with the same path are sought alike, if the registry finds the same module for both
and what stands behind its name has the same path in both. -/
theorem alike_of_locate {prev s t : Text} {l m : Located} {c c' : Compilation (List Text)}
    (hs : s ≠ []) (ht : t ≠ [])
    (hl : (Located.locate i.settings.root s prev).run (w.compilation i.cwd) = (.ok l, c))
    (hm : (Located.locate i.settings.root t prev).run (w.compilation i.cwd) = (.ok m, c'))
    (hpath : Uri.pathOf i.unified s = Uri.pathOf i.unified t)
    (hfound : l.found?.map (fun m => (m.1, m.2.2)) = m.found?.map fun m => (m.1, m.2.2))
    (hbehind : ∀ {name p q}, ModuleName.Behind s name p → ModuleName.Behind t name q →
      Uri.pathOf i.unified p = Uri.pathOf i.unified q) :
    i.Alike l m := by
  have hsfound := w.map_found_locate i.cwd i.settings.root prev hs
  have htfound := w.map_found_locate i.cwd i.settings.root prev ht
  rw [hl] at hsfound
  rw [hm] at htfound
  obtain ⟨hlidentifier, hlreal, hlcontext⟩ := Located.locate_run hl
  obtain ⟨hmidentifier, hmreal, hmcontext⟩ := Located.locate_run hm
  -- With a module on one side there is the same one on the other side.
  have hsome : ∀ r, l.record = some r → ∃ name, l.moduleName = some name ∧
      m.moduleName = some name ∧ name ≠ [] ∧ m.record = some r ∧
      Uri.pathOf i.unified l.relativePath = Uri.pathOf i.unified m.relativePath := by
    intro r hr
    obtain ⟨name, hname, hne⟩ := Located.moduleName_of_record hl hr
    have hlsome : l.found? = some (name, l.relativePath, r) :=
      Located.found?_eq_some.mpr ⟨hr, hname, rfl⟩
    rw [hlsome, Option.map_some] at hfound
    obtain ⟨⟨name', path, r'⟩, hmsome, heq⟩ := Option.map_eq_some_iff.mp hfound.symm
    obtain ⟨rfl, rfl⟩ := Prod.mk.inj heq
    obtain ⟨hmr, hmname, rfl⟩ := Located.found?_eq_some.mp hmsome
    refine ⟨_, hname, hmname, hne, hmr, ?_⟩
    obtain ⟨p, hp, hpathp⟩ := ModuleName.exists_behind_of_mem_lookups
      (mem_of_firstKnown (hsfound.symm.trans (congrArg Except.ok hlsome)))
    obtain ⟨q, hq, hpathq⟩ := ModuleName.exists_behind_of_mem_lookups
      (mem_of_firstKnown (htfound.symm.trans (congrArg Except.ok hmsome)))
    rw [hpathp, hpathq]
    exact hbehind hp hq
  refine ⟨?_, hlreal.trans hmreal.symm, ?_, fun r hr => ?_, ?_, fun r hr => ?_⟩
  · cases hr : l.record with
    | some r =>
      obtain ⟨-, -, -, -, hmr, -⟩ := hsome r hr
      exact hmr.symm
    | none =>
      cases hmr : m.record with
      | none => rfl
      | some r =>
        obtain ⟨name, hname, -⟩ := Located.moduleName_of_record hm hmr
        rw [Located.found?_eq_some.mpr ⟨hmr, hname, rfl⟩] at hfound
        simp [Located.found?, hr] at hfound
  · rw [hlcontext, hmcontext, hlreal, hmreal]
  · obtain ⟨name, hlname, hmname, hne, -⟩ := hsome r hr
    exact ⟨name, hlname, hmname, hne⟩
  · rw [hlidentifier, hmidentifier]
    exact hpath
  · obtain ⟨-, -, -, -, -, hinside⟩ := hsome r hr
    exact hinside

/-- **Identifiers that mean the same import.**  Two identifiers come to the same, up to how an error
names them, if they have the same path, the registry finds the same module for both, and what stands
behind its name has the same path in both. -/
theorem outcome_congr (hcwd : Path.isAbsolute i.cwd = true) (prev : Text) {s t : Text}
    (hs : s ≠ []) (ht : t ≠ []) (hstoken : Registration.token? s = none)
    (httoken : Registration.token? t = none)
    (hpath : Uri.pathOf i.unified s = Uri.pathOf i.unified t)
    (hmodule : w.moduleOf i.settings.root s prev = w.moduleOf i.settings.root t prev)
    (hbehind : ∀ {name p q}, ModuleName.Behind s name p → ModuleName.Behind t name q →
      Uri.pathOf i.unified p = Uri.pathOf i.unified q) :
    (w.outcome i s prev).mapError Failure.withoutIdentifier
      = (w.outcome i t prev).mapError Failure.withoutIdentifier := by
  rw [w.outcome_eq i hstoken, w.outcome_eq i httoken, w.run_resolveModule_eq,
    w.run_resolveModule_eq]
  rw [moduleOf, ← map_firstKnown, ← w.map_found_locate i.cwd _ prev hs, moduleOf,
    ← map_firstKnown, ← w.map_found_locate i.cwd _ prev ht] at hmodule
  rcases hl : (Located.locate i.settings.root s prev).run (w.compilation i.cwd) with ⟨e | l, c⟩ <;>
    rcases hm : (Located.locate i.settings.root t prev).run (w.compilation i.cwd)
      with ⟨e' | m, c'⟩ <;>
    rw [hl, hm] at hmodule
  · obtain rfl : e = e' := Except.error.inj hmodule
    rfl
  · cases hmodule
  · cases hmodule
  · exact conclusion_congr hcwd prev
      (alike_of_locate hs ht hl hm hpath (Except.ok.inj hmodule) hbehind)

end Surroundings

end StyleImport
