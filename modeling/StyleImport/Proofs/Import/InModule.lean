/-
Imports from a module stay in the module.

The path inside a module is what follows the module's name in an identifier.  If no name of the
identifier is `..`, neither is one of the path or of the module's name.  Still a path can be
absolute, since only one slash is taken away behind the module's name, and the end of a name is cut
off where an identifier ends its path: `Importer.LeavesModule` says when this matters.

* `Located.noUp_of_locate` — what is located has no way up if the identifier has none;
* `Importer.searched_in_module` — so all that is looked for in the module is in its stylesheet
  directory, unless the import leaves the module.
-/
import StyleImport.Proofs.Candidates.Descending
import StyleImport.Proofs.Import.Routing

namespace StyleImport

/-! ### The names of modules -/

namespace ModuleName

/-- What stands in front of the first slash, and the rest with the slash; without a slash there is
no rest. -/
theorem segment_cases (t : Text) :
    segment t = (t, []) ∨
      ∃ first rest, segment t = (first, '/' :: rest) ∧ t = first ++ '/' :: rest := by
  induction t with
  | nil => exact .inl rfl
  | cons c cs ih =>
    by_cases hc : c = '/'
    · subst hc
      exact .inr ⟨[], cs, rfl, rfl⟩
    · have hcons : segment (c :: cs) = (c :: (segment cs).1, (segment cs).2) := by
        simp [segment, hc]
      rw [hcons]
      rcases ih with h | ⟨first, rest, h, hcs⟩
      · exact .inl (by rw [h])
      · exact .inr ⟨c :: first, rest, by rw [h], by rw [hcs, List.cons_append]⟩

theorem isAbsolute_segment (t : Text) : Path.isAbsolute (segment t).1 = false := by
  cases t with
  | nil => rfl
  | cons c cs => by_cases hc : c = '/' <;> simp [segment, Path.isAbsolute, hc]

/-- A scoped name ends with a segment behind its scope. -/
theorem exists_of_scoped? {identifier name rest : Text}
    (h : scoped? identifier = some (name, rest)) :
    ∃ front t, identifier = front ++ t ∧ front ++ (segment t).1 = name ∧ (segment t).2 = rest := by
  unfold scoped? at h
  split at h
  · rename_i cs
    split at h
    · rename_i scope t hs
      rcases segment_cases cs with hwhole | ⟨first, after, hfirst, hcs⟩
      · simp [hwhole] at hs
      · obtain ⟨rfl, hafter⟩ := Prod.mk.inj (hfirst.symm.trans hs)
        obtain rfl : after = t := (List.cons.inj hafter).2
        dsimp only at h
        split at h
        · cases h
        · obtain ⟨hname, hrest⟩ := Prod.mk.inj (Option.some.inj h)
          exact ⟨'@' :: first ++ ['/'], after, by simp [hcs], by simp [← hname], hrest⟩
    · cases h
  · cases h

/-- An identifier is its module's name, or that and the path behind a slash. -/
theorem eq_of_split {identifier name path : Text} (h : split identifier = some (name, path)) :
    (identifier = name ∧ path = []) ∨ identifier = name ++ '/' :: path := by
  have hsegment : ∃ front t, identifier = front ++ t ∧ front ++ (segment t).1 = name ∧
      afterSlash (segment t).2 = path := by
    unfold split at h
    split at h
    · rename_i name' rest hscoped
      obtain ⟨front, t, hidentifier, hname, hrest⟩ := exists_of_scoped? hscoped
      obtain ⟨rfl, hpath⟩ := Prod.mk.inj (Option.some.inj h)
      exact ⟨front, t, hidentifier, hname, by rw [hrest, hpath]⟩
    · dsimp only at h
      split at h
      · cases h
      · obtain ⟨hname, hpath⟩ := Prod.mk.inj (Option.some.inj h)
        exact ⟨[], identifier, rfl, hname, hpath⟩
  obtain ⟨front, t, hidentifier, hname, hpath⟩ := hsegment
  -- What follows the segment is nothing or starts with the slash that is taken away.
  rcases segment_cases t with hs | ⟨first, rest, hs, ht⟩
  · rw [hs] at hname hpath
    exact .inl ⟨hidentifier.trans hname, hpath.symm⟩
  · rw [hs] at hname hpath
    obtain rfl : rest = path := hpath
    refine .inr ?_
    rw [hidentifier, ht, ← hname, List.append_assoc]

/-- Reading a scoped name as that of its scope moves names to the path. -/
theorem noUp_widen {name path : Text} (hname : Spelling.NoUp name) (hpath : Spelling.NoUp path) :
    Spelling.NoUp (widen name path).1 ∧ Spelling.NoUp (widen name path).2 := by
  have hjoin : ∀ {t : Text}, Spelling.NoUp t →
      Spelling.NoUp (Text.joinWith ['/'] ([t, path].filter (· ≠ []))) := by
    intro t ht
    by_cases htnil : t = [] <;> by_cases hpnil : path = []
    · simpa [htnil, hpnil, Text.joinWith, List.intercalate] using hpath
    · simpa [htnil, hpnil, Text.joinWith, List.intercalate] using hpath
    · simpa [htnil, hpnil, Text.joinWith, List.intercalate] using ht
    · have hboth : Text.joinWith ['/'] ([t, path].filter (· ≠ [])) = t ++ '/' :: path := by
        simp [htnil, hpnil, Text.joinWith, List.intercalate]
      rw [hboth]
      exact Spelling.noUp_append_slash.mpr ⟨ht, hpath⟩
  unfold widen
  rcases segment_cases name with hs | ⟨scope, rest, hs, hsplit⟩
  · rw [hs]
    exact ⟨hname, hjoin (by decide)⟩
  · rw [hs]
    rw [hsplit, Spelling.noUp_append_slash] at hname
    exact ⟨hname.1, hjoin hname.2⟩

/-- What an identifier without a way up is cut into has none. -/
theorem noUp_of_split {identifier name path : Text} (h : Spelling.NoUp identifier)
    (hrel : Path.isAbsolute identifier = false) (hsplit : split identifier = some (name, path)) :
    Spelling.NoUp name ∧ Spelling.NoUp path ∧ Path.isAbsolute name = false := by
  rcases eq_of_split hsplit with ⟨rfl, rfl⟩ | hboth
  · exact ⟨h, by decide, hrel⟩
  · rw [hboth, Spelling.noUp_append_slash] at h
    rw [hboth, Path.isAbsolute_append_of_ne_nil (split_ne_nil hsplit)] at hrel
    exact ⟨h.1, h.2, hrel⟩

end ModuleName

namespace Located

variable {σ : Type} {s s' : Compilation σ}

/-- What is located in a module has no way up if the identifier has none, and the module's name does
not start with a slash. -/
theorem noUp_of_locate {root identifier prev : Text} (hidentifier : Spelling.NoUp identifier)
    {l : Located} (h : (locate root identifier prev).run s = (.ok l, s')) {r : ModuleRecord}
    (hr : l.record = some r) :
    Spelling.NoUp (l.moduleName.getD []) ∧ Spelling.NoUp l.relativePath ∧
      Path.isAbsolute (l.moduleName.getD []) = false := by
  rw [locate, Plan.run] at h
  dsimp only at h
  split at h
  · -- An identifier that names no module has no record.
    simp only [Plan.run, Prod.mk.injEq, Except.ok.injEq] at h
    rw [← h.1] at hr
    cases hr
  · rename_i hshape
    rw [Bool.or_eq_true, not_or, Bool.not_eq_true, Bool.not_eq_true] at hshape
    split at h
    · simp [Plan.run] at h
    · rename_i name path hsplit
      have hname := ModuleName.noUp_of_split hidentifier hshape.2 hsplit
      rw [Plan.run_bind] at h
      split at h
      · rename_i found s₁ hfound
        obtain ⟨name', path', record⟩ := found
        have hl : l.moduleName = some name' ∧ l.relativePath = path' := by
          dsimp only at h
          -- A module that was found is noted in the journal.
          split at h <;> simp only [Plan.run, Prod.mk.injEq, Except.ok.injEq] at h <;>
            exact h.1 ▸ ⟨rfl, rfl⟩
        rw [hl.1, hl.2, Option.getD_some]
        rcases run_lookupModule_cases hfound with hsame | ⟨-, hscope⟩
        · obtain ⟨rfl, rfl⟩ := Prod.mk.inj hsame
          exact hname
        · obtain ⟨rfl, rfl⟩ := Prod.mk.inj hscope
          obtain ⟨hname', hpath'⟩ := ModuleName.noUp_widen hname.1 hname.2.1
          exact ⟨hname', hpath', ModuleName.isAbsolute_segment name⟩
      · simp at h

end Located

/-! ### The stylesheet directory -/

namespace Uri

variable {unified : Bool}

/-- A name without a way up that is joined to a plain directory is below it, unless the name is one
as an identifier. -/
theorem under_pathOf_join {dir name : Text} (hdir : Path.isAbsolute dir = true)
    (hnormal : Path.normalize dir = dir) (hplain : IsPlain unified dir)
    (hname : Spelling.NoUp name) (hrel : Path.isAbsolute name = false)
    (hne : pathOf unified (Path.here ++ '/' :: name) ≠ Path.up) :
    Path.Under dir (pathOf unified (Path.join dir name)) := by
  have hspelled : Path.components (spelled unified (Path.join dir name))
      = Path.components dir ++ Path.components (spelled unified name) := by
    rcases Path.join_cases dir hrel with ⟨rfl | ⟨front, rfl⟩, hjoin⟩ | hjoin
    · simp [Path.isAbsolute] at hdir
    · -- The last slash is the one between the two.
      have hend : Path.components (front ++ ['/']) = Path.components front := by
        rw [Path.components_append_slash]
        simp [Path.components, Text.pieces]
      rw [hjoin, List.append_assoc, List.singleton_append, hend]
      exact (hplain.mono fun c hc => List.mem_append_left _ hc).components_spelled_below name
    · rw [hjoin]
      exact hplain.components_spelled_below name
  have hplace : Path.moveAll [] (Path.components dir) = Path.components dir := by
    rw [← Path.components_normalize hdir, hnormal]
  rw [Path.Under, components_pathOf unified (Path.isAbsolute_join hdir name), hspelled,
    Path.moveAll_append, hplace]
  exact prefix_moveAll_spelled hname hne _

/-- A plain directory in normal form spells itself. -/
theorem under_pathOf_self {dir : Text} (hdir : Path.isAbsolute dir = true)
    (hnormal : Path.normalize dir = dir) (hplain : IsPlain unified dir) :
    Path.Under dir (pathOf unified dir) := by
  have hself : Path.moveAll [] (Path.components (spelled unified dir)) = Path.components dir := by
    rw [hplain.components_spelled, ← Path.components_normalize hdir, hnormal]
  rw [Path.Under, components_pathOf unified hdir]
  exact hself ▸ List.prefix_rfl

end Uri

namespace Importer

/-- How an import can leave its module although no name of its identifier is `..`: the path in the
module is absolute, or as an identifier it is a way up, or the name of the module is one, or an
extension leads up. -/
def LeavesModule (i : Importer) (name path : Text) : Prop :=
  Path.isAbsolute (Uri.pathOf i.unified path) = true ∨
    Uri.pathOf i.unified path = Path.up ∨
    Uri.pathOf i.unified (Path.here ++ '/' :: name) = Path.up ∨
    ∃ e ∈ i.settings.extensions,
      (NameForm.of i.unified i.settings.extensions path).LeadsUp e

instance (i : Importer) (name path : Text) : Decidable (i.LeavesModule name path) :=
  inferInstanceAs (Decidable (_ ∨ _ ∨ _ ∨ _))

/-- A path that is tried in a module is in its stylesheet directory. -/
theorem candidate_in_module {i : Importer} {dir name path : Text}
    (hdir : Path.isAbsolute dir = true) (hnormal : Path.normalize dir = dir)
    (hplain : Uri.IsPlain i.unified dir) (hname : Spelling.NoUp name)
    (hrel : Path.isAbsolute name = false) (hpath : Spelling.NoUp path)
    (hstays : ¬ i.LeavesModule name path) {c : Text} (hc : c ∈ i.moduleCandidates dir name path) :
    Path.Under dir c := by
  unfold LeavesModule at hstays
  simp only [not_or, Bool.not_eq_true, not_exists, not_and] at hstays
  obtain ⟨hpathRel, hpathNe, hnameNe, hext⟩ := hstays
  obtain ⟨location, hlocation, v, hv, rfl⟩ := mem_candidates hc
  obtain ⟨hvRel, hvUp⟩ := NameForm.no_up_of_mem_variants hpath hpathRel hpathNe hext hv
  have hbelow : Path.isAbsolute location = true ∧
      Path.Under dir (Uri.pathOf i.unified location) := by
    rw [moduleLocations, List.mem_cons] at hlocation
    rcases hlocation with rfl | hlocation
    · exact ⟨hdir, Uri.under_pathOf_self hdir hnormal hplain⟩
    · split at hlocation
      · simp at hlocation
      · obtain rfl := List.mem_singleton.mp hlocation
        exact ⟨Path.isAbsolute_join hdir name,
          Uri.under_pathOf_join hdir hnormal hplain hname hrel hnameNe⟩
  rw [NameForm.absolute_place _ hbelow.1 hvRel]
  exact hbelow.2.trans (NameForm.under_pathOf hbelow.1 hvUp)

end Importer

/-- A search looks at candidates and reads them, and does nothing else. -/
theorem Searched.exists_mem {paths : List Text} {log : List Exchange} {found : Search}
    (h : Searched paths log found) :
    ∀ x ∈ log, ∃ p ∈ paths, (∃ b, x = .isFile p b) ∨ ∃ o, x = .read p o := by
  induction h with
  | nil => simp
  | @noFile path paths log found _ ih =>
    intro x hx
    rcases List.mem_cons.mp hx with rfl | hx
    · exact ⟨path, List.mem_cons_self, .inl ⟨false, rfl⟩⟩
    · obtain ⟨p, hp, hprobe⟩ := ih x hx
      exact ⟨p, List.mem_cons_of_mem _ hp, hprobe⟩
  | @vanished path paths log found o _ _ ih =>
    intro x hx
    rcases List.mem_cons.mp hx with rfl | hx
    · exact ⟨path, List.mem_cons_self, .inl ⟨true, rfl⟩⟩
    · rcases List.mem_cons.mp hx with rfl | hx
      · exact ⟨path, List.mem_cons_self, .inr ⟨o, rfl⟩⟩
      · obtain ⟨p, hp, hprobe⟩ := ih x hx
        exact ⟨p, List.mem_cons_of_mem _ hp, hprobe⟩
  | @ended path paths o _ =>
    intro x hx
    rcases List.mem_cons.mp hx with rfl | hx
    · exact ⟨path, List.mem_cons_self, .inl ⟨true, rfl⟩⟩
    · obtain rfl := List.mem_singleton.mp hx
      exact ⟨path, List.mem_cons_self, .inr ⟨o, rfl⟩⟩

namespace Importer

variable {σ : Type} {s s' : Compilation σ}

/-- A module with a stylesheet directory is searched right after the identifier was located. -/
theorem exchanges_in_module {i : Importer} {identifier prev : Text} {l : Located}
    (hlocated : (Located.locate i.settings.root identifier prev).run s = (.ok l, s'))
    {r : ModuleRecord} (hr : l.record = some r) {dir : Text} (hdir : r.stylesheetDir = some dir) :
    ∃ rest, (i.resolveModule identifier prev).exchanges s
      = (Located.locate i.settings.root identifier prev).exchanges s
        ++ (readFirst l.relativePath []
              (i.moduleCandidates dir (l.moduleName.getD []) l.relativePath)).exchanges s'
        ++ rest := by
  have hphases : i.resolveLocated l prev = i.resolveInModule l prev dir := by
    unfold resolveLocated
    rw [hr]
    dsimp only
    rw [hdir]
  rw [resolveModule, Plan.exchanges_bind_of_ok hlocated, hphases, resolveInModule,
    Plan.exchanges_bind, ← List.append_assoc]
  exact ⟨_, rfl⟩

/-- **Imports from a module stay in the module.**  If no name of the identifier is `..`, wherever
slashes and backslashes cut it, and its module keeps its stylesheets in an absolute directory in
normal form without a character that is special to identifiers, then all that is looked for in the
module is that directory or below it, unless the import leaves the module in one of the ways that
`LeavesModule` lists.  The module is searched right after the identifier was located. -/
theorem searched_in_module {i : Importer} {identifier prev : Text}
    (hidentifier : Path.up ∉ Text.pieces '/' (Spelling.slashed true identifier)) {l : Located}
    (hlocated : (Located.locate i.settings.root identifier prev).run s = (.ok l, s'))
    {r : ModuleRecord} (hr : l.record = some r) {dir : Text} (hdir : r.stylesheetDir = some dir)
    (habs : Path.isAbsolute dir = true) (hnormal : Path.normalize dir = dir)
    (hplain : '?' ∉ dir ∧ '#' ∉ dir ∧ '\\' ∉ dir)
    (hstays : ¬ i.LeavesModule (l.moduleName.getD []) l.relativePath) :
    let tried := i.moduleCandidates dir (l.moduleName.getD []) l.relativePath
    (∀ c ∈ tried, Path.Under dir c) ∧
    ∃ phase found rest,
      (i.resolveModule identifier prev).exchanges s
        = (Located.locate i.settings.root identifier prev).exchanges s ++ phase ++ rest ∧
      Searched tried phase found ∧
      ∀ x ∈ phase, ∃ p, Path.Under dir p ∧ ((∃ b, x = .isFile p b) ∨ ∃ o, x = .read p o) := by
  intro tried
  obtain ⟨hname, hpath, hrel⟩ := Located.noUp_of_locate hidentifier hlocated hr
  have hliteral : Uri.IsPlain i.unified dir := by
    obtain ⟨hquery, hfragment, hback⟩ := hplain
    intro c hc
    have hmark : c ≠ '?' ∧ c ≠ '#' := ⟨fun h => hquery (h ▸ hc), fun h => hfragment (h ▸ hc)⟩
    exact ⟨by simp [Uri.isSuffixMark, hmark], fun _ h => hback (h ▸ hc)⟩
  have htried : ∀ c ∈ tried, Path.Under dir c := fun c hc =>
    candidate_in_module habs hnormal hliteral hname hrel hpath hstays hc
  refine ⟨htried, ?_⟩
  obtain ⟨rest, hlog⟩ := exchanges_in_module (i := i) hlocated hr hdir
  obtain ⟨found, probed, s₁, hsearch, -⟩ := run_readFirst l.relativePath tried [] s'
  refine ⟨_, found, rest, hlog, hsearch, ?_⟩
  intro x hx
  obtain ⟨p, hp, hprobe⟩ := hsearch.exists_mem x hx
  exact ⟨p, htried p hp, hprobe⟩

theorem searched_in_module_of_name :
    let host : Host Unit :=
      { isFile := fun _ _ => false
        lookup := fun _ _ s => (.ok (some { name := ['m'], stylesheetDir := some ['/', 'd'] }), s)
        read := fun _ s => (.ok [], s), ask := fun _ _ s => (.ok none, s), note := fun _ s => s }
    let s : Compilation Unit := { cwd := ['/'], host, session := {}, state := () }
    let i : Importer := ⟨['/'], { root := ['/'], extensions := [['.', 'c']] }, true⟩
    let tried := i.moduleCandidates ['/', 'd'] ['m'] ['x']
    tried.length = 10 ∧ (∀ c ∈ tried, Path.Under ['/', 'd'] c) ∧
      ∃ phase found rest, (i.resolveModule ['m', '/', 'x'] []).exchanges s
          = (Located.locate ['/'] ['m', '/', 'x'] []).exchanges s ++ phase ++ rest ∧
        Searched tried phase found := by
  intro host s i tried
  have hlocated : (Located.locate ['/'] ['m', '/', 'x'] []).run s
      = (.ok ⟨['m', '/', 'x'], some ['m'], ['x'],
          some { name := ['m'], stylesheetDir := some ['/', 'd'] }, false, ['/']⟩, s) := rfl
  have hstays : ¬ i.LeavesModule ['m'] ['x'] := by
    simp only [i]
    decide +kernel
  obtain ⟨htried, phase, found, rest, hlog, hsearch, -⟩ := searched_in_module (i := i) (by decide)
    hlocated rfl rfl (by decide) (by decide) (by decide) hstays
  refine ⟨?_, htried, phase, found, rest, hlog, hsearch⟩
  simp only [tried, i]
  decide +kernel

/-- Not every import stays in its module: only one slash is taken away behind the name of the
module, and what follows the second one is looked for at the root of the file tree. -/
theorem searched_outside_module :
    let host : Host Unit :=
      { isFile := fun _ _ => false
        lookup := fun _ _ s => (.ok (some { name := ['m'], stylesheetDir := some ['/', 'd'] }), s)
        read := fun _ s => (.ok [], s), ask := fun _ _ s => (.ok none, s), note := fun _ s => s }
    let s : Compilation Unit := { cwd := ['/'], host, session := {}, state := () }
    let i : Importer := ⟨['/'], { root := ['/'], extensions := [['.', 'c']] }, true⟩
    Path.up ∉ Text.pieces '/' (Spelling.slashed true ['m', '/', '/', 'x']) ∧
      (Located.locate ['/'] ['m', '/', '/', 'x'] []).run s
        = (.ok ⟨['m', '/', '/', 'x'], some ['m'], ['/', 'x'],
            some { name := ['m'], stylesheetDir := some ['/', 'd'] }, false, ['/']⟩, s) ∧
      (∃ rest, (i.resolveModule ['m', '/', '/', 'x'] []).exchanges s
        = (Located.locate ['/'] ['m', '/', '/', 'x'] []).exchanges s
          ++ .isFile ['/', 'x'] false :: rest) ∧
      ¬ Path.Under ['/', 'd'] ['/', 'x'] := by
  intro host s i
  have hlocated : (Located.locate ['/'] ['m', '/', '/', 'x'] []).run s
      = (.ok ⟨['m', '/', '/', 'x'], some ['m'], ['/', 'x'],
          some { name := ['m'], stylesheetDir := some ['/', 'd'] }, false, ['/']⟩, s) := rfl
  have htried : i.moduleCandidates ['/', 'd'] ['m'] ['/', 'x']
      = ['/', 'x'] :: (i.moduleCandidates ['/', 'd'] ['m'] ['/', 'x']).tail := by
    simp only [i]
    decide +kernel
  obtain ⟨rest, hlog⟩ := exchanges_in_module (i := i) hlocated rfl rfl
  rw [Option.getD_some, htried, List.append_assoc] at hlog
  exact ⟨by decide, hlocated, ⟨_, hlog⟩, by decide⟩

end Importer

end StyleImport
