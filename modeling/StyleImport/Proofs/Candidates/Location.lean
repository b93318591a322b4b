/-
Candidates lie below their location.

A spelling of a relative name without `..` leads down from wherever it is put (`LeadsDown`): no
character of it is special to identifiers, and no name of it is `..`.  A location is another matter:
it is read as an identifier together with the spelling, so a `?` or `#` in it hides the spelling,
and where separators are unified a backslash in it cuts a directory's name in two.

* `NameForm.leadsDown_of_mem_variants` — every spelling leads down;
* `NameForm.mem_below_location` — so every candidate lies below the path that its location spells,
  which is the location itself if the location has none of these characters.
-/
import StyleImport.Candidates
import StyleImport.Proofs.Path.Spelled

namespace StyleImport

namespace Path

/-- Whether a path is a directory or lies below it, both in normal form. -/
def Under (dir p : Text) : Prop := components dir <+: components p

instance (dir p : Text) : Decidable (Under dir p) :=
  inferInstanceAs (Decidable (components dir <+: components p))

end Path

namespace Candidates

/-- A candidate is an earlier one or the absolute form of one that was added. -/
theorem mem_addAll {cwd : Text} {cs : Candidates} {ps : List Text} {c : Text}
    (h : c ∈ (cs.addAll cwd ps).paths) : c ∈ cs.paths ∨ ∃ p ∈ ps, c = Path.absolute cwd p := by
  induction ps generalizing cs with
  | nil => exact .inl h
  | cons p ps ih =>
    rcases ih h with h | ⟨q, hq, hc⟩
    · rw [paths_add] at h
      split at h
      · exact .inl h
      · rcases List.mem_append.mp h with h | h
        · exact .inl h
        · exact .inr ⟨p, List.mem_cons_self, List.mem_singleton.mp h⟩
    · exact .inr ⟨q, List.mem_cons_of_mem _ hq, hc⟩

end Candidates

namespace NameForm

/-! ### Files in directories -/

theorem inDirectory_append (d f e : Text) : inDirectory d f ++ e = inDirectory d (f ++ e) := by
  unfold inDirectory
  split
  · rfl
  · split <;> simp

theorem components_inDirectory (d : Text) {f : Text} (hslash : '/' ∉ f) (hne : f ≠ []) :
    Path.components (inDirectory d f) = Path.components d ++ [f] := by
  have hf : Path.components f = [f] := Path.components_of_no_slash hslash hne
  unfold inDirectory
  split
  · rename_i hnil
    rw [hnil, hf]
    rfl
  · split
    · rename_i hroot
      rw [hroot, Path.components_slash_cons, hf]
      rfl
    · rw [Path.components_append_slash, hf]

theorem isAbsolute_inDirectory_of_file (d : Text) {f : Text} (hslash : '/' ∉ f) :
    Path.isAbsolute (inDirectory d f) = Path.isAbsolute d := by
  unfold inDirectory
  split
  · rename_i hnil
    rw [hnil]
    exact Path.isAbsolute_of_no_slash hslash
  · rename_i hne
    split
    · rename_i hroot
      rw [hroot]
      rfl
    · exact Path.isAbsolute_append_of_ne_nil hne _

theorem isPlain_inDirectory {unified : Bool} {d f : Text} (hd : Uri.IsPlain unified d)
    (hf : Uri.IsPlain unified f) : Uri.IsPlain unified (inDirectory d f) := by
  unfold inDirectory
  split
  · exact hf
  · split
    · exact (Uri.isPlain_slash unified).append hf
    · exact hd.append ((Uri.isPlain_slash unified).append hf)

/-! ### Spellings lead down -/

/-- A path that leads down from every place that it is put below. -/
structure LeadsDown (unified : Bool) (v : Text) : Prop where
  relative : Path.isAbsolute v = false
  plain : Uri.IsPlain unified v
  no_up : Path.up ∉ Path.components v

/-- A single name that leads down. -/
structure IsFile (unified : Bool) (f : Text) : Prop where
  ne_nil : f ≠ []
  ne_up : f ≠ Path.up
  no_slash : '/' ∉ f
  plain : Uri.IsPlain unified f

theorem IsFile.leadsDown {unified : Bool} {f : Text} (h : IsFile unified f) :
    LeadsDown unified f := by
  refine ⟨Path.isAbsolute_of_no_slash h.no_slash, h.plain, ?_⟩
  rw [Path.components_of_no_slash h.no_slash h.ne_nil, List.mem_singleton]
  exact h.ne_up.symm

/-- A file in a directory that is given or led down to. -/
theorem leadsDown_inDirectory {unified : Bool} {d f : Text} (hd : d = [] ∨ LeadsDown unified d)
    (hf : IsFile unified f) : LeadsDown unified (inDirectory d f) := by
  obtain ⟨hrel, hplain, hup⟩ : Path.isAbsolute d = false ∧ Uri.IsPlain unified d ∧
      Path.up ∉ Path.components d := by
    rcases hd with rfl | hd
    · exact ⟨rfl, Uri.isPlain_nil unified, by decide⟩
    · exact ⟨hd.relative, hd.plain, hd.no_up⟩
  refine ⟨?_, isPlain_inDirectory hplain hf.plain, ?_⟩
  · rw [isAbsolute_inDirectory_of_file d hf.no_slash, hrel]
  · rw [components_inDirectory d hf.no_slash hf.ne_nil, List.mem_append, not_or,
      List.mem_singleton]
    exact ⟨hup, hf.ne_up.symm⟩

/-- What the parts of a name have to be for its spellings to lead down. -/
structure Descends (n : NameForm) : Prop where
  name_eq : n.name = inDirectory n.directory n.base
  directory : n.directory = [] ∨ LeadsDown n.unified n.directory
  base : IsFile n.unified n.base
  given : ∀ e, n.givenExtension = some e → e ∈ n.extensions
  base_here : n.base = Path.here → Path.here ∉ n.extensions

theorem isFile_indexName (unified : Bool) {name : Text} (h : name ∈ indexNames) :
    IsFile unified name := by
  rw [indexNames, List.mem_cons, List.mem_singleton] at h
  rcases h with rfl | rfl
  all_goals
    refine ⟨by simp, by simp [Path.up], by simp, ?_⟩
    simp [Uri.IsPlain, Uri.isSuffixMark]

theorem Descends.isFile_partialStem {n : NameForm} (h : n.Descends) :
    IsFile n.unified n.partialStem := by
  have hstem : ∀ c ∈ n.partialStem, c = '_' ∨ c ∈ n.base := by
    intro c hc
    exact (List.mem_cons.mp hc).imp_right List.mem_of_mem_take
  refine ⟨by simp [partialStem], by simp [partialStem, Path.up], ?_, ?_⟩
  · intro hc
    rcases hstem _ hc with hc | hc
    · simp at hc
    · exact h.base.no_slash hc
  · intro c hc
    rcases hstem c hc with rfl | hc
    · exact ⟨by decide, fun _ => by decide⟩
    · exact h.base.plain c hc

/-- Extensions that neither lead away from a file nor mean anything to identifiers. -/
def SafeExtensions (unified : Bool) (extensions : List Text) : Prop :=
  ∀ e ∈ extensions, '/' ∉ e ∧ Uri.IsPlain unified e

section

variable {n : NameForm} (hext : SafeExtensions n.unified n.extensions)

include hext

theorem isFile_index {f : Text} (hf : f ∈ n.indexFiles) : IsFile n.unified f := by
  obtain ⟨e, he, hf⟩ := List.mem_flatMap.mp hf
  obtain ⟨name, hname, rfl⟩ := List.mem_map.mp hf
  obtain ⟨heslash, heplain⟩ := hext e he
  have hfile := isFile_indexName n.unified hname
  rw [indexNames, List.mem_cons, List.mem_singleton] at hname
  refine ⟨by simp [hfile.ne_nil], ?_, by simp [hfile.no_slash, heslash],
    hfile.plain.append heplain⟩
  rcases hname with rfl | rfl <;> simp [Path.up]

theorem Descends.isFile_extended (h : n.Descends) {e : Text} (he : e ∈ n.extensions) :
    IsFile n.unified (n.base ++ e) := by
  obtain ⟨heslash, heplain⟩ := hext e he
  refine ⟨by simp [h.base.ne_nil], ?_, by simp [h.base.no_slash, heslash],
    h.base.plain.append heplain⟩
  -- Two dots come about only as one and another one.
  intro hup
  rcases List.append_eq_cons_iff.mp hup with ⟨hnil, -⟩ | ⟨rest, hbase, hrest⟩
  · exact h.base.ne_nil hnil
  · rcases List.append_eq_cons_iff.mp hrest.symm with ⟨rfl, hdot⟩ | ⟨rest', rfl, hnone⟩
    · rw [hdot] at he
      exact h.base_here hbase he
    · have hboth : n.base = Path.up := by
        rw [hbase, (List.append_eq_nil_iff.mp hnone.symm).1, Path.up]
      exact h.base.ne_up hboth

theorem Descends.isFile_partial (h : n.Descends) {e : Text} (he : e ∈ n.extensions) :
    IsFile n.unified (n.partialStem ++ e) := by
  obtain ⟨heslash, heplain⟩ := hext e he
  have hstem := h.isFile_partialStem
  exact ⟨by simp [partialStem], by simp [partialStem, Path.up], by simp [hstem.no_slash, heslash],
    hstem.plain.append heplain⟩

theorem Descends.leadsDown_partial (h : n.Descends) {es : List Text} (hes : es ⊆ n.extensions)
    {v : Text} (hv : v ∈ n.partials es) : LeadsDown n.unified v := by
  unfold partials at hv
  split at hv
  · simp at hv
  · obtain ⟨e, he, rfl⟩ := List.mem_map.mp hv
    exact leadsDown_inDirectory h.directory (h.isFile_partial hext (hes he))

/-- Every spelling leads down. -/
theorem leadsDown_of_mem_variants (h : n.name ≠ [] → n.Descends) {v : Text}
    (hv : v ∈ n.variants) : LeadsDown n.unified v := by
  unfold variants at hv
  split at hv
  · -- A location alone is spelled by its index files.
    exact (isFile_index hext hv).leadsDown
  · rename_i hname
    have hn : n.Descends := h hname
    have hself : LeadsDown n.unified n.name := by
      rw [hn.name_eq]
      exact leadsDown_inDirectory hn.directory hn.base
    split at hv
    · rename_i e hgiven
      rcases List.mem_cons.mp hv with rfl | hv
      · exact hself
      · exact hn.leadsDown_partial hext (by simpa using hn.given e hgiven) hv
    · simp only [List.cons_append, List.mem_cons, List.mem_append, List.mem_map] at hv
      rcases hv with rfl | (⟨e, he, rfl⟩ | hv) | ⟨f, hf, rfl⟩
      · exact hself
      · have happend : n.name ++ e = inDirectory n.directory (n.base ++ e) := by
          rw [hn.name_eq, inDirectory_append]
        rw [happend]
        exact leadsDown_inDirectory hn.directory (hn.isFile_extended hext he)
      · exact hn.leadsDown_partial hext (List.Subset.refl _) hv
      · exact leadsDown_inDirectory (.inr hself) (isFile_index hext hf)

end

/-! ### The form of a name -/

@[simp] theorem name_of (unified : Bool) (extensions : List Text) (name : Text) :
    (of unified extensions name).name = Uri.pathOf unified name := by
  unfold of
  by_cases hname : name = []
  · subst hname
    rfl
  · simp [hname]

@[simp] theorem unified_of (unified : Bool) (extensions : List Text) (name : Text) :
    (of unified extensions name).unified = unified := rfl

@[simp] theorem extensions_of (unified : Bool) (extensions : List Text) (name : Text) :
    (of unified extensions name).extensions = extensions := rfl

theorem base_of (unified : Bool) (extensions : List Text) (name : Text) :
    (of unified extensions name).base
      = ((Text.cutLast '/' (Uri.pathOf unified name)).getD ([], Uri.pathOf unified name)).2 := by
  rw [← name_of unified extensions name]
  rfl

theorem directory_of {unified : Bool} (extensions : List Text) {name : Text}
    (hrel : Path.isAbsolute (Uri.pathOf unified name) = false) :
    (of unified extensions name).directory
      = ((Text.cutLast '/' (Uri.pathOf unified name)).getD ([], Uri.pathOf unified name)).1 := by
  rw [← name_of unified extensions name] at hrel ⊢
  simp only [of] at hrel ⊢
  simp [hrel]

theorem mem_of_givenExtension {unified : Bool} {extensions : List Text} {name e : Text}
    (h : (of unified extensions name).givenExtension = some e) : e ∈ extensions := by
  have hgiven : (of unified extensions name).givenExtension
      = if Path.extension (of unified extensions name).base ≠ []
          && extensions.contains (Path.extension (of unified extensions name).base) then
          some (Path.extension (of unified extensions name).base) else none := rfl
  rw [hgiven] at h
  split at h
  · rename_i hknown
    rw [Option.some.injEq] at h
    rw [Bool.and_eq_true] at hknown
    exact h ▸ List.contains_iff_mem.mp hknown.2
  · simp at h

/-- A relative name without `..` has the parts that descend. -/
theorem descends_of {unified : Bool} {extensions : List Text} {name : Text}
    (hrel : Path.isAbsolute (Uri.pathOf unified name) = false)
    (hup : Path.up ∉ Text.pieces '/' (Uri.pathOf unified name))
    (hdot : Uri.pathOf unified name = Path.here → Path.here ∉ extensions)
    (hne : Uri.pathOf unified name ≠ []) : (of unified extensions name).Descends := by
  have hplain := Uri.isPlain_pathOf unified name
  have hproper := Uri.pieces_pathOf hne hrel
  have hbase := base_of unified extensions name
  have hdir := directory_of extensions hrel
  set n := of unified extensions name with hn
  have hname : n.name = Uri.pathOf unified name := name_of unified extensions name
  generalize Uri.pathOf unified name = p at *
  rcases hcut : Text.cutLast '/' p with _ | ⟨before, after⟩
  · -- A single name.
    rw [hcut, Option.getD_none] at hbase hdir
    have hslash : '/' ∉ p := Text.cutLast_eq_none hcut
    rw [Text.pieces_of_not_mem hslash, List.mem_singleton] at hup
    have hfile : IsFile unified p := ⟨hne, Ne.symm hup, hslash, hplain⟩
    refine ⟨by rw [hname, hdir, hbase]; rfl, .inl hdir, ?_, fun e he => mem_of_givenExtension he,
      fun hhere => hdot (hbase.symm.trans hhere)⟩
    rw [hbase]
    exact hfile
  · -- A last name behind a directory.
    rw [hcut, Option.getD_some] at hbase hdir
    have hp : p = before ++ '/' :: after := Text.eq_of_cutLast hcut
    have hslash : '/' ∉ after := Text.not_mem_of_cutLast hcut
    have hbefore : before ≠ [] := by
      rintro rfl
      simp [hp, Path.isAbsolute] at hrel
    have hpieces : Text.pieces '/' p = Text.pieces '/' before ++ [after] := by
      rw [hp, Text.pieces_append_sep, Text.pieces_of_not_mem hslash]
    have hhere : p ≠ Path.here := by
      intro h
      have hmem : '/' ∈ Path.here := by rw [← h, hp]; simp
      exact absurd hmem (by decide)
    rw [hpieces, List.mem_append, not_or, List.mem_singleton] at hup
    obtain ⟨hafter, hafterHere⟩ : after ≠ [] ∧ after ≠ Path.here :=
      hproper.resolve_left hhere after (by simp [hpieces])
    have hdown : LeadsDown unified before := by
      refine ⟨?_, hplain.mono fun c hc => by simp [hp, hc], ?_⟩
      · rw [hp, Path.isAbsolute_append_of_ne_nil hbefore] at hrel
        exact hrel
      · exact fun hmem => hup.1 (List.mem_filter.mp hmem).1
    have hfile : IsFile unified after :=
      ⟨hafter, Ne.symm hup.2, hslash, hplain.mono fun c hc => by simp [hp, hc]⟩
    refine ⟨?_, ?_, ?_, fun e he => mem_of_givenExtension he, ?_⟩
    · have hroot : before ≠ ['/'] := fun h => by simpa [h, Path.isAbsolute] using hdown.relative
      rw [hname, hdir, hbase, inDirectory, if_neg hbefore, if_neg hroot, hp]
    · rw [hdir]
      exact .inr hdown
    · rw [hbase]
      exact hfile
    · rw [hbase]
      exact fun h => absurd h hafterHere

/-! ### Candidates lie below their location -/

theorem absolute_place (n : NameForm) {location v : Text}
    (hlocation : Path.isAbsolute location = true) (hv : Path.isAbsolute v = false) (cwd : Text) :
    Path.absolute cwd (n.place location v) = Uri.pathOf n.unified (location ++ '/' :: v) := by
  have hjoin : Text.joinWith ['/'] [location, v] = location ++ '/' :: v := by
    simp [Text.joinWith, List.intercalate]
  have habs : Path.isAbsolute (location ++ '/' :: v) = true :=
    Path.isAbsolute_append_of_isAbsolute hlocation _
  rw [place, if_neg (by simp [hv]), hjoin, Uri.absolute_pathOf_of_isAbsolute cwd n.unified habs]

/-- A spelling that leads down is below the path that the location spells. -/
theorem under_pathOf {unified : Bool} {location v : Text}
    (hlocation : Path.isAbsolute location = true)
    (hv : Path.up ∉ Path.components (Uri.spelled unified v)) :
    Path.Under (Uri.pathOf unified location) (Uri.pathOf unified (location ++ '/' :: v)) := by
  have habs : Path.isAbsolute (location ++ '/' :: v) = true :=
    Path.isAbsolute_append_of_isAbsolute hlocation _
  rw [Path.Under, Uri.components_pathOf unified hlocation, Uri.components_pathOf unified habs,
    Uri.components_spelled_append_slash]
  split
  · exact List.prefix_rfl
  · rw [Path.moveAll_append]
    exact Path.prefix_moveAll hv _

/-- Every candidate that a location adds for a relative name without `..` lies below the path that
the location spells as an identifier.  A location with a `?` or `#` in it adds nothing but that
path, and a location without special characters adds candidates below itself. -/
theorem mem_below_location {unified : Bool} {extensions : List Text} {name location cwd : Text}
    (hrel : Path.isAbsolute (Uri.pathOf unified name) = false)
    (hup : Path.up ∉ Text.pieces '/' (Uri.pathOf unified name))
    (hext : ∀ e ∈ extensions, '/' ∉ e ∧ Uri.IsPlain unified e)
    (hdot : Uri.pathOf unified name = Path.here → Path.here ∉ extensions)
    (hlocation : Path.isAbsolute location = true) {earlier : Candidates} {c : Text}
    (hc : c ∈ (earlier.addAll cwd ((of unified extensions name).below location)).paths)
    (hnew : c ∉ earlier.paths) :
    Path.Under (Uri.pathOf unified location) c ∧
      (location.any Uri.isSuffixMark = true → c = Uri.pathOf unified location) ∧
      (Uri.IsPlain unified location → Path.Under (Path.normalize location) c) := by
  obtain ⟨p, hp, rfl⟩ := (Candidates.mem_addAll hc).resolve_left hnew
  obtain ⟨v, hv, rfl⟩ := List.mem_map.mp hp
  have hdown : LeadsDown unified v :=
    leadsDown_of_mem_variants (n := of unified extensions name) hext
      (fun hne => descends_of hrel hup hdot (name_of unified extensions name ▸ hne)) hv
  rw [absolute_place _ hlocation hdown.relative, unified_of]
  have hunder : Path.Under (Uri.pathOf unified location)
      (Uri.pathOf unified (location ++ '/' :: v)) := by
    refine under_pathOf hlocation ?_
    rw [hdown.plain.components_spelled]
    exact hdown.no_up
  refine ⟨hunder, fun hmark => Uri.pathOf_append_slash_of_mark unified hmark v, fun hplain => ?_⟩
  have hsame : Path.components (Path.normalize location)
      = Path.components (Uri.pathOf unified location) := by
    rw [Uri.components_pathOf unified hlocation, hplain.components_spelled,
      Path.components_normalize hlocation]
  rw [Path.Under, hsame]
  exact hunder

theorem partial_below_directory :
    Path.Under (Uri.pathOf true ['/', 'a']) ['/', 'a', '/', 'b', '/', '_', 'x', '.', 'c'] ∧
      (['/', 'a'].any Uri.isSuffixMark = true →
        ['/', 'a', '/', 'b', '/', '_', 'x', '.', 'c'] = Uri.pathOf true ['/', 'a']) ∧
      (Uri.IsPlain true ['/', 'a'] →
        Path.Under (Path.normalize ['/', 'a']) ['/', 'a', '/', 'b', '/', '_', 'x', '.', 'c']) :=
  @mem_below_location true [['.', 'c']] ['b', '/', 'x'] ['/', 'a'] ['/'] (by decide) (by decide)
    (by decide) (by decide) (by decide) .empty _ (by decide) (by decide)

/-- Not every location keeps its candidates: the `#` of this one takes its name apart, and the only
candidate is another directory. -/
theorem candidate_beside_location :
    (Candidates.empty.addAll ['/']
        ((of true [['.', 'c']] ['x']).below ['/', 'a', '#', 'b'])).paths = [['/', 'a']] ∧
      ¬ Path.Under (Path.normalize ['/', 'a', '#', 'b']) ['/', 'a'] := by
  decide

end NameForm

end StyleImport
