/-
How the requesting file is spelled.

The importer asks about the requesting file only whether it is a file, and takes its directory.  For
a host that answers without regard to the requesting file, two spellings of that directory that have
the same candidates make no difference: both runs ask the same questions (`Plan.Alike`) and come to
the same answer, up to how an error names the requesting file.

* `Plan.Alike.run` — alike plans come to the same;
* `Importer.alike_resolveLocated` — imports of one identifier with the same candidates are alike;
* `Importer.run_resolveModule_absolute` — so a relative path may stand for its absolute form.
-/
import StyleImport.Proofs.Candidates.Respelled
import StyleImport.Proofs.Disk.Walk
import StyleImport.Proofs.Import.Locate
import StyleImport.Import.Resolve

namespace StyleImport

/-- The failure without the requesting file that it names. -/
def Failure.withoutRequester : Failure → Failure
  | .promised (.notFound identifier tried _) => .promised (.notFound identifier tried [])
  | e => e

/-- A host that answers without regard to where a module is seen from or who requests an import. -/
structure Host.IgnoresRequester {σ : Type} (h : Host σ) : Prop where
  lookup : ∀ name context context' st, h.lookup name context st = h.lookup name context' st
  ask : ∀ identifier prev prev' st, h.ask identifier prev st = h.ask identifier prev' st

namespace Compilation

/-! ### No step changes the host -/

variable {σ : Type} (s : Compilation σ)

theorem host_lookup (name context : Text) : (s.lookup name context).2.host = s.host := rfl

theorem host_ask (identifier prev : Text) : (s.ask identifier prev).2.host = s.host := rfl

theorem host_arrive (path : Text) : (s.arrive path).2.2.host = s.host := by
  unfold arrive
  dsimp only
  split <;> rfl

theorem host_complete (path : Text) (ticket : Nat) :
    (s.complete path ticket).2.host = s.host := by
  unfold complete
  split <;> rfl

theorem host_readOnce (path : Text) : (s.readOnce path).2.host = s.host :=
  (host_complete _ path _).trans (s.host_arrive path)

end Compilation

namespace Plan

/-! ### Alike plans -/

variable {α β γ δ : Type}

/-- Plans that ask the same questions, whoever requests the import, with related results. -/
inductive Alike (R : α → β → Prop) : Plan α → Plan β → Prop
  | done {a : α} {b : β} : R a b → Alike R (.done a) (.done b)
  | fail {e e' : Failure} : e.withoutRequester = e'.withoutRequester → Alike R (.fail e) (.fail e')
  | isFile {p : Text} {next next'} : (∀ b, Alike R (next b) (next' b)) →
    Alike R (.isFile p next) (.isFile p next')
  | lookup {name context context' : Text} {next next'} : (∀ r, Alike R (next r) (next' r)) →
    Alike R (.lookup name context next) (.lookup name context' next')
  | read {p : Text} {next next'} : (∀ o, Alike R (next o) (next' o)) →
    Alike R (.read p next) (.read p next')
  | askHost {identifier prev prev' : Text} {next next'} : (∀ r, Alike R (next r) (next' r)) →
    Alike R (.askHost identifier prev next) (.askHost identifier prev' next')
  | mark {file : Text} {next next'} : (∀ b, Alike R (next b) (next' b)) →
    Alike R (.mark file next) (.mark file next')
  | register {token path : Text} {next next'} : (∀ b, Alike R (next b) (next' b)) →
    Alike R (.register token path next) (.register token path next')
  | note {e : Event} {next next'} : Alike R next next' → Alike R (.note e next) (.note e next')
  | pause {next next'} : Alike R next next' → Alike R (.pause next) (.pause next')

namespace Alike

theorem refl (p : Plan α) : Alike Eq p p := by
  induction p with
  | done a => exact .done rfl
  | fail e => exact .fail rfl
  | isFile p next ih => exact .isFile ih
  | lookup name context next ih => exact .lookup ih
  | read p next ih => exact .read ih
  | askHost identifier prev next ih => exact .askHost ih
  | mark file next ih => exact .mark ih
  | register token path next ih => exact .register ih
  | note e next ih => exact .note ih
  | pause next ih => exact .pause ih

theorem bind {R : α → β → Prop} {S : γ → δ → Prop} {p : Plan α} {q : Plan β}
    (h : Alike R p q) {f : α → Plan γ} {g : β → Plan δ} (hfg : ∀ a b, R a b → Alike S (f a) (g b)) :
    Alike S (p.bind f) (q.bind g) := by
  induction h with
  | done hab => exact hfg _ _ hab
  | fail he => exact .fail he
  | isFile _ ih => exact .isFile ih
  | lookup _ ih => exact .lookup ih
  | read _ ih => exact .read ih
  | askHost _ ih => exact .askHost ih
  | mark _ ih => exact .mark ih
  | register _ ih => exact .register ih
  | note _ ih => exact .note ih
  | pause _ ih => exact .pause ih

/-- Alike plans come to the same on a host that ignores the requesting file. -/
theorem run {σ : Type} {p q : Plan α} (h : Alike Eq p q) {s : Compilation σ}
    (hs : s.host.IgnoresRequester) :
    (p.run s).1.mapError Failure.withoutRequester = (q.run s).1.mapError Failure.withoutRequester ∧
      (p.run s).2 = (q.run s).2 := by
  induction h generalizing s with
  | done hab => exact ⟨by rw [hab], by rw [hab]⟩
  | fail he => exact ⟨by simp only [Plan.run, Except.mapError, he], rfl⟩
  | isFile _ ih => exact ih _ hs
  | @lookup name context context' _ _ _ ih =>
    -- The answer moves the state on, but the host stays the one that ignores requesters.
    have hanswer : s.lookup name context = s.lookup name context' := by
      simp only [Compilation.lookup, hs.lookup name context context']
    have hhost := s.host_lookup name context'
    simp only [Plan.run, hanswer]
    rcases hr : s.lookup name context' with ⟨e | r, s'⟩
    · exact ⟨rfl, rfl⟩
    · rw [hr] at hhost
      exact ih r (by rw [hhost]; exact hs)
  | @read path _ _ _ ih =>
    have hread : (s.readOnce path).2.host.IgnoresRequester := by
      rw [s.host_readOnce path]
      exact hs
    exact ih _ hread
  | @askHost identifier prev prev' _ _ _ ih =>
    have hanswer : s.ask identifier prev = s.ask identifier prev' := by
      simp only [Compilation.ask, hs.ask identifier prev prev']
    have hhost := s.host_ask identifier prev'
    simp only [Plan.run, hanswer]
    rcases hr : s.ask identifier prev' with ⟨e | r, s'⟩
    · exact ⟨rfl, rfl⟩
    · rw [hr] at hhost
      exact ih r (by rw [hhost]; exact hs)
  | mark _ ih => exact ih _ hs
  | register _ ih => exact ih _ hs
  | note _ ih => exact ih hs
  | pause _ ih => exact ih hs

end Alike

end Plan

namespace Located

/-- The same finding, for another spelling of the requesting file. -/
def Requested (prev prev' : Text) (l l' : Located) : Prop :=
  l.isRealFile = true ∧ l.contextPath = prev ∧ l' = { l with contextPath := prev' }

theorem alike_lookupModule (identifier context context' name path : Text) :
    Plan.Alike Eq (lookupModule identifier context name path)
      (lookupModule identifier context' name path) := by
  refine .lookup fun r => ?_
  cases r with
  | some r => exact .done rfl
  | none =>
    dsimp only
    split
    · exact .note (.lookup fun r => .done rfl)
    · exact .done rfl

/-- What is located for two spellings of a file differs in nothing else. -/
theorem alike_locate (root identifier prev prev' : Text) :
    ∃ next next' : Bool → Plan Located, locate root identifier prev = .isFile prev next ∧
      locate root identifier prev' = .isFile prev' next' ∧
      Plan.Alike (Requested prev prev') (next true) (next' true) := by
  -- Each asks about the file that it is given, so only what follows a "yes" is compared.
  refine ⟨_, _, rfl, rfl, ?_⟩
  dsimp only
  split
  · exact .done ⟨rfl, rfl, rfl⟩
  · split
    · exact .fail rfl
    · refine (alike_lookupModule _ _ _ _ _).bind ?_
      rintro ⟨name, path, record⟩ _ rfl
      dsimp only
      cases record with
      | none => exact .done ⟨rfl, rfl, rfl⟩
      | some r => exact .note (.done ⟨rfl, rfl, rfl⟩)

end Located

namespace Importer

/-! ### Imports of the same candidates -/

variable {i : Importer} {prev prev' : Text}

theorem alike_orHost {α : Type} (identifier : Text) (wrap : Resolved → α) {onMiss onMiss' : Plan α}
    (h : Plan.Alike Eq onMiss onMiss') :
    Plan.Alike Eq (orHost identifier prev wrap onMiss) (orHost identifier prev' wrap onMiss') := by
  refine .askHost fun r => ?_
  cases r with
  | some r => exact .note (.done rfl)
  | none => exact h

section Candidates

variable {l l' : Located} (hl : Located.Requested prev prev' l l')
  (hcandidates : ∀ withIncludes, i.relativeCandidates l withIncludes
    = i.relativeCandidates l' withIncludes)

include hl hcandidates

theorem alike_resolveRelative (withIncludes : Bool) (probed : List Text) :
    Plan.Alike Eq (i.resolveRelative l prev withIncludes probed)
      (i.resolveRelative l' prev' withIncludes probed) := by
  obtain ⟨-, -, rfl⟩ := hl
  unfold resolveRelative
  rw [hcandidates]
  refine (Plan.Alike.refl _).bind ?_
  rintro ⟨found, tried⟩ _ rfl
  cases found with
  | some r => exact .refl _
  | none => exact alike_orHost _ _ (.fail rfl)

/-- Imports of the same identifier with the same candidates are alike. -/
theorem alike_resolveLocated :
    Plan.Alike Eq (i.resolveLocated l prev) (i.resolveLocated l' prev') := by
  have hrelative := alike_resolveRelative hl hcandidates
  obtain ⟨hreal, -, rfl⟩ := hl
  unfold resolveLocated
  dsimp only
  split
  · exact hrelative true []
  · split
    · refine (Plan.Alike.refl _).bind ?_
      rintro ⟨found, tried⟩ _ rfl
      cases found with
      | some r => exact .refl _
      | none => exact .note (alike_orHost _ _ (hrelative false tried))
    · rw [if_pos hreal, if_pos hreal]
      exact hrelative true []

end Candidates

/-! ### A relative path and its absolute form -/

/-- A path that leads to a file ends with a name proper. -/
theorem exists_last_of_walkNames {before last : Text} (hslash : '/' ∉ last)
    (hup : Path.up ∉ Path.components (before ++ '/' :: last))
    (hend : (Disk.walkNames (before ++ '/' :: last)).getLast? ≠ some Path.here) :
    Path.names (before ++ '/' :: last) = Path.names before ++ [last] := by
  -- A slash at the end or a dot would end the walk with a dot.
  have hnil : last ≠ [] := by
    rintro rfl
    simp [Disk.walkNames] at hend
  have hcomponents : Path.components (before ++ '/' :: last)
      = Path.components before ++ [last] := by
    rw [Path.components_append_slash, Path.components_of_no_slash hslash hnil]
  have hhere : last ≠ Path.here := by
    rintro rfl
    have hdot : (before ++ '/' :: Path.here).getLast? ≠ some '/' := by simp [Path.here]
    rw [Disk.walkNames, hcomponents, if_neg hdot, List.append_nil] at hend
    simp at hend
  rw [Path.names_eq_filter, hcomponents, List.filter_append, ← Path.names_eq_filter,
    List.filter_cons_of_pos (by simpa using hhere), List.filter_nil]

theorem up_not_mem_directory {p : Text} (hdir : Path.directory p ≠ [])
    (hup : Path.up ∉ Path.components p) : Path.up ∉ Path.components (Path.directory p) := by
  obtain ⟨before, last, rfl, hslash⟩ := Path.exists_of_directory_ne_nil hdir
  rw [Path.components_directory before hslash]
  rw [Path.components_append_slash, List.mem_append, not_or] at hup
  exact hup.1

section Requester

variable {d : Disk} (hd : d.Settled) (hcwd : i.cwd = d.cwdPath)
  (hrel : Path.isAbsolute prev = false) (hup : Path.up ∉ Path.components prev)
  (hfile : d.isFile prev = true) (hdir : Path.directory prev ≠ [])

include hd hcwd hrel hup hfile hdir

/-- The directory of a file that a relative path leads to, in full. -/
theorem directory_absolute :
    Path.directory (Path.absolute i.cwd prev)
      = Disk.pathOf (d.cwd ++ Path.names (Path.directory prev)) := by
  have hupDir := up_not_mem_directory hdir hup
  obtain ⟨-, -, -, hend⟩ := hd.names_of_isFile hrel hup hfile
  obtain ⟨before, last, rfl, hslash⟩ := Path.exists_of_directory_ne_nil hdir
  have hnames : Path.names before = Path.names (Path.directory (before ++ '/' :: last)) := by
    rw [Path.names_eq_filter, ← Path.components_directory before hslash, ← Path.names_eq_filter]
  -- The full path ends with the same last name, and its directory is what stands in front of that.
  rw [hcwd, Disk.cwdPath, Path.absolute_eq_pathOf hd.cwd_isName hrel hup,
    exists_last_of_walkNames hslash hup hend, ← List.append_assoc, hnames]
  refine Path.directory_pathOf ?_ hslash
  intro n hn
  rcases List.mem_append.mp hn with hn | hn
  · exact hd.cwd_isName n hn
  · exact Path.isName_of_mem_names hupDir hn

variable (hback : i.unified = true → (Path.directory prev).head? ≠ some '\\')
  (hroot : i.unified = false → Path.absolute i.cwd (Path.directory prev) ≠ ['/'])
  (hplain : Uri.IsPlain i.unified i.cwd)

include hback hroot hplain

omit hfile in
theorem respelled_directory : Respelled i.unified d.cwd (Path.directory prev) where
  cwd_isName := hd.cwd_isName
  cwd_plain n hn := by
    rw [← Path.components_pathOf hd.cwd_isName] at hn
    exact hplain.mono fun c hc => hcwd ▸ Path.mem_of_mem_components hn hc
  ne_nil := hdir
  relative := Path.isAbsolute_directory hrel
  no_up := up_not_mem_directory hdir hup
  no_backslash := hback
  not_root hunified hnil := by
    refine hroot hunified ?_
    rw [hcwd, Disk.cwdPath, Path.absolute_eq_pathOf hd.cwd_isName
      (Path.isAbsolute_directory hrel) (up_not_mem_directory hdir hup), hnil]
    rfl

/-- A name has the same candidates next to a file, however that is spelled, and they are those in
the directory that a registration from there binds. -/
theorem candidates_directory (name : Text) (more : List Text) :
    i.candidates name (Path.directory prev :: more)
        = i.candidates name (i.requestDirectory prev true :: more) ∧
      i.candidates name (Path.directory prev :: more)
        = i.candidates name (Path.directory (Path.absolute i.cwd prev) :: more) := by
  have hspelled := respelled_directory hd hcwd hrel hup hdir hback hroot hplain
  have hfull := directory_absolute hd hcwd hrel hup hfile hdir
  have hrequest : i.requestDirectory prev true
      = Disk.pathOf (d.cwd ++ Path.names (Path.directory prev)) := by
    rw [requestDirectory, if_pos rfl, hcwd]
    exact Path.absolute_eq_pathOf hd.cwd_isName hspelled.relative hspelled.no_up
  rw [hfull, hrequest, and_self]
  have hplaces (v : Text) := hspelled.absolute_place
    (NameForm.unified_of i.unified i.settings.extensions name) v
  rw [← Disk.cwdPath, ← hcwd] at hplaces
  unfold candidates NameForm.candidates
  rw [List.foldl_cons, List.foldl_cons, Candidates.addAll_below_congr hplaces]

theorem relativeCandidates_absolute {l l' : Located}
    (hl : Located.Requested prev (Path.absolute i.cwd prev) l l') (withIncludes : Bool) :
    i.relativeCandidates l withIncludes = i.relativeCandidates l' withIncludes := by
  have hspelled := respelled_directory hd hcwd hrel hup hdir hback hroot hplain
  have hfull := directory_absolute hd hcwd hrel hup hfile hdir
  obtain ⟨hreal, rfl, rfl⟩ := hl
  have hincludes : i.includeLocations (Path.directory l.contextPath)
      = i.includeLocations (Path.directory (Path.absolute i.cwd l.contextPath)) := by
    unfold includeLocations
    refine List.map_congr_left fun p _ => ?_
    rw [hfull, hcwd]
    exact hspelled.absolute_join p
  unfold relativeCandidates base
  rw [if_pos hreal, if_pos hreal, ← hincludes]
  exact (candidates_directory hd hcwd hrel hup hfile hdir hback hroot hplain _ _).2

end Requester

/-- An import by a file comes to the same whether the file is spelled by a relative path that never
goes up or by its absolute path, up to how an error names it, on every host that sees a file tree
without links and ignores who requests an import.  Either way the candidates next to the file are
those in the directory that a registration binds.

The directory must be spelled at all, the working directory must have nothing in it that is special
to identifiers, and two spellings are ruled out that are not what they seem once a name is put below
them: a directory that starts with what counts as a slash, and the root itself where doubled slashes
stay. -/
theorem run_resolveModule_absolute {σ : Type} {i : Importer} {d : Disk} {s : Compilation σ}
    {prev : Text} (identifier : Text) (hd : d.Settled) (hcwd : i.cwd = d.cwdPath)
    (hdisk : ∀ p, s.host.isFile s.state p = d.isFile p) (hs : s.host.IgnoresRequester)
    (hrel : Path.isAbsolute prev = false) (hup : Path.up ∉ Path.components prev)
    (hfile : d.isFile prev = true) (hdir : Path.directory prev ≠ [])
    (hback : i.unified = true → (Path.directory prev).head? ≠ some '\\')
    (hroot : i.unified = false → Path.absolute i.cwd (Path.directory prev) ≠ ['/'])
    (hplain : Uri.IsPlain i.unified i.cwd)
    (hlimit : (Utf8.encode (Path.absolute i.cwd prev)).length < Disk.pathLimit) :
    let short := (i.resolveModule identifier prev).run s
    let full := (i.resolveModule identifier (Path.absolute i.cwd prev)).run s
    short.1.mapError Failure.withoutRequester = full.1.mapError Failure.withoutRequester ∧
      short.2 = full.2 ∧
      ∀ name more, i.candidates name (Path.directory prev :: more)
          = i.candidates name (i.requestDirectory prev true :: more) ∧
        i.candidates name (Path.directory prev :: more)
          = i.candidates name (Path.directory (Path.absolute i.cwd prev) :: more) := by
  intro short full
  have hfile' : d.isFile (Path.absolute i.cwd prev) = true := by
    rw [hcwd] at hlimit ⊢
    exact hd.isFile_absolute hrel hup hfile hlimit
  obtain ⟨next, next', hnext, hnext', halike⟩ :=
    Located.alike_locate i.settings.root identifier prev (Path.absolute i.cwd prev)
  have hshort : short = ((next true).bind fun l => i.resolveLocated l prev).run s := by
    simp only [short, resolveModule, hnext, Plan.bind, Plan.run, hdisk, hfile]
  have hfull : full
      = ((next' true).bind fun l => i.resolveLocated l (Path.absolute i.cwd prev)).run s := by
    simp only [full, resolveModule, hnext', Plan.bind, Plan.run, hdisk, hfile']
  have hplans : Plan.Alike Eq ((next true).bind fun l => i.resolveLocated l prev)
      ((next' true).bind fun l => i.resolveLocated l (Path.absolute i.cwd prev)) := by
    refine halike.bind fun l l' hl => ?_
    exact alike_resolveLocated hl
      (relativeCandidates_absolute hd hcwd hrel hup hfile hdir hback hroot hplain hl)
  obtain ⟨hanswer, hstate⟩ := hplans.run hs
  rw [hshort, hfull]
  exact ⟨hanswer, hstate,
    candidates_directory hd hcwd hrel hup hfile hdir hback hroot hplain⟩

/-- A host that sees a file tree in which every file is empty, and knows no modules. -/
def emptyFilesHost (d : Disk) : Host Unit where
  isFile _ p := d.isFile p
  lookup _ _ st := (.ok none, st)
  read _ st := (.ok [], st)
  ask _ _ st := (.ok none, st)
  note _ st := st

/-- An import by `d/m` from `/p` comes to the same as one by `/p/d/m`. -/
theorem run_resolveModule_in_subdirectory :
    let d : Disk :=
      { top := [(['p'], .directory
          [(['d'], .directory [(['m'], .file [] 0), (['x', '.', 'c'], .file [] 0)])])]
        cwd := [['p']] }
    let i : Importer := ⟨['/', 'p'], { root := ['/'], extensions := [['.', 'c']] }, true⟩
    let s : Compilation Unit := ⟨['/', 'p'], emptyFilesHost d, {}, ()⟩
    let short := (i.resolveModule ['x'] ['d', '/', 'm']).run s
    let full := (i.resolveModule ['x'] (Path.absolute i.cwd ['d', '/', 'm'])).run s
    short.1.mapError Failure.withoutRequester = full.1.mapError Failure.withoutRequester ∧
      short.2 = full.2 ∧
      ∀ name more, i.candidates name (Path.directory ['d', '/', 'm'] :: more)
          = i.candidates name (i.requestDirectory ['d', '/', 'm'] true :: more) ∧
        i.candidates name (Path.directory ['d', '/', 'm'] :: more)
          = i.candidates name (Path.directory (Path.absolute i.cwd ['d', '/', 'm']) :: more) := by
  intro d i s
  have hfree : d.root.LinkFree := by
    refine .ofEntries fun e he => ?_
    obtain rfl := List.mem_singleton.mp he
    refine .ofEntries fun e he => ?_
    obtain rfl := List.mem_singleton.mp he
    refine .ofEntries fun e he => ?_
    simp only [List.mem_cons, List.not_mem_nil, or_false] at he
    rcases he with rfl | rfl <;> exact .file [] 0
  have hdirectory : d.isDirectory d.cwdPath = true := by
    have hlookup := Disk.lookup_of_isName hfree (p := ['/', 'p']) (by decide) (by decide)
      (by decide) (by decide) (by decide) rfl
    exact Disk.isDirectory_iff.mpr ⟨_, _, hlookup, rfl⟩
  have hfile : d.isFile ['d', '/', 'm'] = true := by
    have hlookup := Disk.lookup_of_isName hfree (p := ['d', '/', 'm']) (by decide) (by decide)
      (by decide) (by decide) (by decide) rfl
    exact Disk.isFile_iff.mpr ⟨_, _, hlookup, rfl⟩
  exact run_resolveModule_absolute ['x'] ⟨hfree, by decide, hdirectory⟩ rfl (fun _ => rfl)
    ⟨fun _ _ _ _ => rfl, fun _ _ _ _ => rfl⟩ rfl (by decide) hfile (by decide) (by decide)
    (by decide) (by decide) (by decide)

/-- Not every spelling will do: the directory of a bare file name is spelled by nothing at all, and
what is put below that is looked up at the root. -/
theorem candidates_of_bare_name :
    let i : Importer := ⟨['/', 'p'], { root := ['/'], extensions := [['.', 'c']] }, true⟩
    i.candidates ['x'] [Path.directory ['m']] ≠ i.candidates ['x'] [i.requestDirectory ['m'] true] ∧
      ∀ c ∈ i.candidates ['x'] [Path.directory ['m']], ¬ Path.Under i.cwd c := by
  decide

end Importer

end StyleImport
