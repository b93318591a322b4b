/-
Names with their extension written.

An extension behind a name stands behind the path of the name and behind its last name, and the
directory stays the same.  So once the extension is recognized, the name has two of the candidates
that it had without it, the file itself and its partial.  But a file is known by what stands from the
last dot of its name on: of an extension with several dots that part has to be known too, and if it
is not, the name with the extension is as good as any other name.

* `NameForm.components_place` — a spelling of a name below a location;
* `NameForm.Bare.paths_of_known`, `NameForm.Bare.mem_of_unknown` — the candidates of the name with an
  extension that is recognized, and one of those of the name with another one;
* `NameForm.narrowed_by_extension` — when writing the extension narrows the search.
-/
import Mathlib.Data.Finset.Max
import StyleImport.Proofs.Candidates.Order
import StyleImport.Proofs.Path.LastName

namespace StyleImport

/-- Two elements of a list of which the second comes up only later on. -/
theorem pair_sublist_eraseDups {α : Type} [BEq α] [LawfulBEq α] {front back : List α} {a b : α}
    (ha : a ∈ front) (hb : b ∈ back) (hnew : b ∉ front) :
    [a, b].Sublist (front ++ back).eraseDups := by
  rw [eraseDups_append_eq]
  have hfront : [a].Sublist front.eraseDups :=
    List.singleton_sublist.mpr (List.mem_eraseDups.mpr ha)
  have hback : [b].Sublist (back.eraseDups.filter fun y => !front.contains y) :=
    List.singleton_sublist.mpr
      (List.mem_filter.mpr ⟨List.mem_eraseDups.mpr hb, by simpa using hnew⟩)
  exact hfront.append hback

namespace NameForm

/-! ### The directory of a name -/

theorem base_eq_splitLast (unified : Bool) (extensions : List Text) (name : Text) :
    (of unified extensions name).base = (Path.splitLast (Uri.pathOf unified name)).2 := by
  rw [base_of, Path.splitLast]
  split <;> rename_i hcut <;> rw [hcut] <;> rfl

theorem givenExtension_eq (unified : Bool) (extensions : List Text) (name : Text) :
    (of unified extensions name).givenExtension
      = if Path.extension (of unified extensions name).base ≠ []
          && extensions.contains (Path.extension (of unified extensions name).base) then
          some (Path.extension (of unified extensions name).base) else none := rfl

/-- The directory of a name has all its names but the last one. -/
theorem components_name_append {unified : Bool} {extensions : List Text} {name : Text}
    (hbase : (of unified extensions name).base ≠ []) {x : Text} (hx : '/' ∉ x) :
    Path.components ((of unified extensions name).name ++ x)
      = Path.components (of unified extensions name).directory
        ++ [(of unified extensions name).base ++ x] := by
  rw [base_eq_splitLast] at hbase ⊢
  rw [directory_eq, name_of]
  generalize Uri.pathOf unified name = p at hbase
  rcases hcut : Text.cutLast '/' p with _ | ⟨before, after⟩
  · have hslash : '/' ∉ p := Text.cutLast_eq_none hcut
    rw [Path.splitLast_of_no_slash hslash] at hbase ⊢
    rw [Path.isAbsolute_of_no_slash hslash]
    exact Path.components_of_no_slash (by simp [hslash, hx]) (by simp [hbase])
  · have hlast : (Path.splitLast p).2 = after := by rw [Path.splitLast, hcut]
    rw [hlast] at hbase ⊢
    have hslash : '/' ∉ after ++ x := by simp [Text.not_mem_of_cutLast hcut, hx]
    rw [Option.getD_some, Text.eq_of_cutLast hcut, List.append_assoc, List.cons_append,
      Path.components_append_slash, Path.components_of_no_slash hslash (by simp [hbase])]
    -- The root has no names.
    by_cases hbefore : before = []
    · rw [hbefore]
      rfl
    · rw [if_neg (by simp [hbefore])]

/-! ### Places of spellings -/

/-- The names of a directory that is placed below a location. -/
def placedNames (location d : Text) : List Text :=
  Path.moveAll (if Path.isAbsolute d then [] else Path.moveAll [] (Path.components location))
    (Path.components d)

/-- Where a plain spelling stands below a plain location. -/
theorem components_place {n : NameForm} {location v : Text}
    (hlocation : Path.isAbsolute location = true) (hplain : Uri.IsPlain n.unified location)
    (hv : Uri.IsPlain n.unified v) (cwd : Text) {d : Text} {names : List Text}
    (hkind : Path.isAbsolute v = Path.isAbsolute d)
    (hcomponents : Path.components v = Path.components d ++ names)
    (hnames : ∀ m ∈ names, Path.IsName m) :
    Path.components (Path.absolute cwd (n.place location v)) = placedNames location d ++ names := by
  rw [placedNames, ← Path.moveAll_of_isName hnames, ← Path.moveAll_append, ← hcomponents, ← hkind]
  cases hrel : Path.isAbsolute v with
  | true =>
    rw [place, if_pos hrel, Path.absolute_of_isAbsolute cwd hrel, Path.components_normalize hrel,
      if_pos rfl]
  | false =>
    have habs : Path.isAbsolute (location ++ '/' :: v) = true :=
      Path.isAbsolute_append_of_isAbsolute hlocation _
    rw [absolute_place n hlocation hrel, Uri.components_pathOf _ habs,
      hplain.components_spelled_below, hv.components_spelled, Path.moveAll_append,
      if_neg Bool.false_ne_true]

/-! ### Names that extensions are written behind -/

/-- A plain name without an extension: its last name is more than dots and ends in no extension. -/
structure Bare (unified : Bool) (extensions : List Text) (name : Text) : Prop where
  plain : Uri.IsPlain unified name
  not_dots : ∃ c ∈ (Path.splitLast name).2, c ≠ '.'
  no_extension : ∀ e ∈ extensions, ¬ e <:+ (Path.splitLast name).2

namespace Bare

variable {unified : Bool} {extensions : List Text} {name : Text}

theorem isName_append (h : Bare unified extensions name) {x : Text} (hx : '/' ∉ x) :
    Path.IsName ((Path.splitLast name).2 ++ x) := by
  obtain ⟨c, hc, hdot⟩ := h.not_dots
  refine Path.isName_of_not_dots ?_ ⟨c, List.mem_append_left x hc, hdot⟩
  simp [Path.not_mem_splitLast, hx]

theorem isName (h : Bare unified extensions name) : Path.IsName (Path.splitLast name).2 := by
  have hself := h.isName_append (x := []) (by simp)
  rwa [List.append_nil] at hself

theorem isName_partial (h : Bare unified extensions name) {x : Text} (hx : '/' ∉ x) :
    Path.IsName ('_' :: ((Path.splitLast name).2 ++ x)) :=
  Path.isName_of_not_dots (by simp [(h.isName_append hx).no_slash]) ⟨'_', by simp, by decide⟩

/-- A name behind which something is written starts as it did. -/
theorem head?_append (h : Bare unified extensions name) (x : Text) :
    ((Path.splitLast name).2 ++ x).head? = (Path.splitLast name).2.head? := by
  rw [List.head?_append, Option.or_of_isSome (by simpa using h.isName.ne_nil)]

theorem splitLast_pathOf (h : Bare unified extensions name) :
    (Path.splitLast (Uri.pathOf unified name)).2 = (Path.splitLast name).2 := by
  obtain ⟨front, hfront⟩ := Path.components_append_last h.isName.ne_nil
  have hcomponents := hfront [] (by simp)
  rw [List.append_nil, List.append_nil, ← h.plain.components_spelled] at hcomponents
  have hne : Uri.spelled unified name ≠ [] := by
    intro hnil
    simp [hnil, Path.components, Text.pieces] at hcomponents
  rw [Uri.pathOf_eq, if_neg hne, Path.splitLast_normalize hcomponents h.isName]

theorem base_of (h : Bare unified extensions name) :
    (of unified extensions name).base = (Path.splitLast name).2 := by
  rw [base_eq_splitLast, h.splitLast_pathOf]

theorem name_ne_nil (h : Bare unified extensions name) :
    (of unified extensions name).name ≠ [] := by
  intro hnil
  have hbase := h.splitLast_pathOf
  rw [← name_of unified extensions name, hnil] at hbase
  exact h.isName.ne_nil hbase.symm

/-- What is written behind a name stands behind its path and its last name, and nothing else
changes. -/
theorem of_append (h : Bare unified extensions name) {e : Text} (hplain : Uri.IsPlain unified e)
    (hslash : '/' ∉ e) :
    (of unified extensions (name ++ e)).name = (of unified extensions name).name ++ e ∧
      (of unified extensions (name ++ e)).base = (Path.splitLast name).2 ++ e ∧
      (of unified extensions (name ++ e)).directory = (of unified extensions name).directory := by
  have hpath : Uri.pathOf unified (name ++ e) = Uri.pathOf unified name ++ e :=
    Uri.pathOf_append h.plain hplain hslash h.isName (h.isName_append hslash)
  have hne : Uri.pathOf unified name ≠ [] := name_of unified extensions name ▸ h.name_ne_nil
  rw [name_of, name_of, base_eq_splitLast, directory_eq, directory_eq, hpath,
    Path.isAbsolute_append_of_ne_nil hne, ← h.splitLast_pathOf, Path.splitLast, Path.splitLast,
    Text.cutLast_append_of_not_mem _ hslash]
  rcases Text.cutLast '/' (Uri.pathOf unified name) with _ | ⟨before, after⟩
  · exact ⟨rfl, rfl, rfl⟩
  · exact ⟨rfl, rfl, rfl⟩

theorem name_append_ne_nil (h : Bare unified extensions name) {e : Text}
    (hplain : Uri.IsPlain unified e) (hslash : '/' ∉ e) :
    (of unified extensions (name ++ e)).name ≠ [] := by
  rw [(h.of_append hplain hslash).1]
  exact List.append_ne_nil_of_left_ne_nil h.name_ne_nil e

theorem givenExtension (h : Bare unified extensions name) :
    (of unified extensions name).givenExtension = none := by
  rw [givenExtension_eq, h.base_of]
  refine if_neg fun hknown => ?_
  rw [Bool.and_eq_true, List.contains_iff_mem] at hknown
  exact h.no_extension _ hknown.2 (Path.extension_suffix _)

/-- An extension is recognized by what stands from its last dot on. -/
theorem givenExtension_append (h : Bare unified extensions name) {e : Text}
    (hplain : Uri.IsPlain unified e) (hslash : '/' ∉ e) (hdot : '.' ∈ e) :
    (of unified extensions (name ++ e)).givenExtension
      = if Text.fromLast '.' e ∈ extensions then some (Text.fromLast '.' e) else none := by
  have hextension : Path.extension ((Path.splitLast name).2 ++ e) = Text.fromLast '.' e :=
    Path.extension_append h.not_dots (h.isName_append hslash).no_slash hdot
  have hne : Text.fromLast '.' e ≠ [] := by
    obtain ⟨before, after, hcut⟩ := Text.cutLast_isSome hdot
    rw [Text.fromLast, hcut]
    exact List.cons_ne_nil _ _
  rw [givenExtension_eq, (h.of_append hplain hslash).2.1, hextension]
  simp [hne]

end Bare

/-! ### Spellings with and without the extension -/

theorem isPlain_directory (unified : Bool) (extensions : List Text) (name : Text) :
    Uri.IsPlain unified (of unified extensions name).directory := by
  have hplain := Uri.isPlain_pathOf unified name
  rw [directory_eq]
  generalize Uri.pathOf unified name = p at hplain
  split
  · exact Uri.isPlain_slash unified
  · rcases hcut : Text.cutLast '/' p with _ | ⟨before, after⟩
    · exact Uri.isPlain_nil unified
    · exact hplain.mono fun c hc => by
        rw [Text.eq_of_cutLast hcut]
        exact List.mem_append_left _ hc

/-- Where a file in the directory of a name stands. -/
theorem components_file {unified : Bool} {extensions : List Text} {name location : Text}
    (hlocation : Path.isAbsolute location = true) (hplain : Uri.IsPlain unified location)
    (cwd : Text) {f : Text} (hf : Uri.IsPlain unified f) (hname : Path.IsName f) :
    Path.components (Path.absolute cwd ((of unified extensions name).place location
        (inDirectory (of unified extensions name).directory f)))
      = placedNames location (of unified extensions name).directory ++ [f] := by
  refine components_place hlocation hplain ?_ cwd ?_ ?_ ?_
  · exact isPlain_inDirectory (isPlain_directory unified extensions name) hf
  · exact isAbsolute_inDirectory_of_file _ hname.no_slash
  · exact components_inDirectory _ hname.no_slash hname.ne_nil
  · intro m hm
    exact List.mem_singleton.mp hm ▸ hname

theorem mem_indexFile {n : NameForm} {f : Text} (hf : f ∈ n.indexFiles) : 'i' ∈ f := by
  obtain ⟨e, -, hf⟩ := List.mem_flatMap.mp hf
  obtain ⟨name, hname, rfl⟩ := List.mem_map.mp hf
  rw [indexNames, List.mem_cons, List.mem_singleton] at hname
  rcases hname with rfl | rfl <;> simp

/-- The partials of a name whose last name is a stem and the extension that was recognized. -/
theorem partials_eq {n : NameForm} {stem : Text}
    (hstem : n.base = stem ++ n.givenExtension.getD []) (es : List Text) :
    n.partials es = if n.base.head? = some '_' then []
      else es.map fun ext => inDirectory n.directory ('_' :: (stem ++ ext)) := by
  have hpartial : n.partialStem = '_' :: stem := by
    rw [partialStem, hstem]
    simp
  simp [partials, isPartial, hpartial]

theorem paths_candidates_singleton (n : NameForm) (cwd location : Text) :
    (n.candidates cwd [location]).paths
      = (n.variants.map fun v => Path.absolute cwd (n.place location v)).eraseDups := by
  rw [paths_candidates, List.flatMap_singleton, below, List.map_map]
  rfl

namespace Bare

variable {unified : Bool} {extensions : List Text} {name : Text}

/-- The spellings of a name without an extension. -/
theorem variants_eq (h : Bare unified extensions name) :
    (of unified extensions name).variants
      = ((of unified extensions name).name
          :: extensions.map ((of unified extensions name).name ++ ·))
        ++ ((if (Path.splitLast name).2.head? = some '_' then []
            else extensions.map fun x => inDirectory (of unified extensions name).directory
              ('_' :: ((Path.splitLast name).2 ++ x)))
          ++ (of unified extensions name).indexFiles.map
            (inDirectory (of unified extensions name).name)) := by
  have hstem : (of unified extensions name).base
      = (Path.splitLast name).2 ++ (of unified extensions name).givenExtension.getD [] := by
    rw [h.base_of, h.givenExtension, Option.getD_none, List.append_nil]
  rw [variants, if_neg h.name_ne_nil, h.givenExtension, extensions_of, partials_eq hstem,
    h.base_of]
  simp

/-- The spellings of a name with an extension that is recognized. -/
theorem variants_of_known (h : Bare unified extensions name) {e : Text}
    (hplain : Uri.IsPlain unified e) (hslash : '/' ∉ e) (hdot : '.' ∈ e)
    (hknown : Text.fromLast '.' e ∈ extensions) :
    (of unified extensions (name ++ e)).variants
      = ((of unified extensions name).name ++ e)
        :: if (Path.splitLast name).2.head? = some '_' then []
          else [inDirectory (of unified extensions name).directory
            ('_' :: ((Path.splitLast name).2 ++ e))] := by
  obtain ⟨hname, hbase, hdirectory⟩ := h.of_append hplain hslash
  have hgiven := h.givenExtension_append hplain hslash hdot
  rw [if_pos hknown] at hgiven
  obtain ⟨front, hfront⟩ := Text.fromLast_suffix '.' e
  have hstem : (of unified extensions (name ++ e)).base
      = ((Path.splitLast name).2 ++ front)
        ++ (of unified extensions (name ++ e)).givenExtension.getD [] := by
    rw [hgiven, Option.getD_some, List.append_assoc, hfront, hbase]
  rw [variants, if_neg (h.name_append_ne_nil hplain hslash), hgiven]
  simp only [partials_eq hstem, hname, hdirectory, hbase, h.head?_append, List.map_cons,
    List.map_nil, List.append_assoc, hfront]

/-- A file with an extension that is not recognized is looked for with each extension once more. -/
theorem mem_of_unknown (h : Bare unified extensions name) {e x : Text}
    (hext : Uri.IsPlain unified e) (hslash : '/' ∉ e) (hdot : '.' ∈ e)
    (hunknown : Text.fromLast '.' e ∉ extensions) (hx : x ∈ extensions) (cwd location : Text) :
    Path.absolute cwd ((of unified extensions name).place location
        ((of unified extensions name).name ++ (e ++ x)))
      ∈ ((of unified extensions (name ++ e)).candidates cwd [location]).paths := by
  have hname := (h.of_append hext hslash).1
  have hgiven := h.givenExtension_append hext hslash hdot
  rw [if_neg hunknown] at hgiven
  have hvariant : (of unified extensions name).name ++ (e ++ x)
      ∈ (of unified extensions (name ++ e)).variants := by
    rw [variants, if_neg (h.name_append_ne_nil hext hslash), hgiven, hname, ← List.append_assoc]
    simp [hx]
  rw [paths_candidates_singleton, List.mem_eraseDups]
  exact List.mem_map_of_mem hvariant

/-! ### Places of the candidates -/

section Places

variable {location : Text} (cwd : Text) (h : Bare unified extensions name)
  (hlocation : Path.isAbsolute location = true) (hplain : Uri.IsPlain unified location)

include h hlocation hplain

/-- The name with something behind it. -/
theorem components_extended {x : Text} (hx : Uri.IsPlain unified x) (hslash : '/' ∉ x) :
    Path.components (Path.absolute cwd ((of unified extensions name).place location
        ((of unified extensions name).name ++ x)))
      = placedNames location (of unified extensions name).directory
        ++ [(Path.splitLast name).2 ++ x] := by
  have hbase := h.base_of
  refine components_place hlocation hplain ?_ cwd ?_ ?_ ?_
  · rw [name_of]
    exact (Uri.isPlain_pathOf unified name).append hx
  · rw [Path.isAbsolute_append_of_ne_nil h.name_ne_nil, isAbsolute_directory_of, name_of]
  · rw [components_name_append (hbase ▸ h.isName.ne_nil) hslash, hbase]
  · intro m hm
    exact List.mem_singleton.mp hm ▸ h.isName_append hslash

/-- A file in the directory that has the name. -/
theorem components_inside {f : Text} (hf : Uri.IsPlain unified f) (hname : Path.IsName f) :
    Path.components (Path.absolute cwd ((of unified extensions name).place location
        (inDirectory (of unified extensions name).name f)))
      = placedNames location (of unified extensions name).directory
        ++ [(Path.splitLast name).2, f] := by
  have hbase := h.base_of
  have hself := components_name_append (hbase ▸ h.isName.ne_nil) (x := []) (by simp)
  rw [List.append_nil, List.append_nil, hbase] at hself
  refine components_place hlocation hplain ?_ cwd ?_ ?_ ?_
  · rw [name_of]
    exact isPlain_inDirectory (Uri.isPlain_pathOf unified name) hf
  · rw [isAbsolute_inDirectory_of_file _ hname.no_slash, isAbsolute_directory_of, name_of]
  · rw [components_inDirectory _ hname.no_slash hname.ne_nil, hself, List.append_assoc]
    rfl
  · intro m hm
    rcases List.mem_cons.mp hm with rfl | hm
    · exact h.isName
    · exact List.mem_singleton.mp hm ▸ hname

/-- The partial with something behind it. -/
theorem components_partial {x : Text} (hx : Uri.IsPlain unified x) (hslash : '/' ∉ x) :
    Path.components (Path.absolute cwd ((of unified extensions name).place location
        (inDirectory (of unified extensions name).directory
          ('_' :: ((Path.splitLast name).2 ++ x)))))
      = placedNames location (of unified extensions name).directory
        ++ ['_' :: ((Path.splitLast name).2 ++ x)] := by
  have hbase : Uri.IsPlain unified (Path.splitLast name).2 :=
    h.plain.mono fun c hc => (Path.splitLast_suffix name).subset hc
  refine components_file hlocation hplain cwd (fun c hc => ?_) (h.isName_partial hslash)
  rcases List.mem_cons.mp hc with rfl | hc
  · exact ⟨by decide, fun _ => by decide⟩
  · exact hbase.append hx c hc

/-- The candidates of a name with an extension that is recognized: the file, and its partial. -/
theorem paths_of_known {e : Text} (hext : Uri.IsPlain unified e) (hslash : '/' ∉ e)
    (hdot : '.' ∈ e) (hknown : Text.fromLast '.' e ∈ extensions) :
    let n := of unified extensions name
    let base := (Path.splitLast name).2
    ((of unified extensions (name ++ e)).candidates cwd [location]).paths
      = Path.absolute cwd (n.place location (n.name ++ e))
        :: if base.head? = some '_' then []
          else [Path.absolute cwd
            (n.place location (inDirectory n.directory ('_' :: (base ++ e))))] := by
  intro n base
  have hplace : (of unified extensions (name ++ e)).place = n.place := rfl
  rw [paths_candidates_singleton, h.variants_of_known hext hslash hdot hknown, hplace]
  split
  · rfl
  · refine eraseDups_of_nodup (List.nodup_cons.mpr ⟨fun hmem => ?_, List.nodup_singleton _⟩)
    -- The names of the two files are not equally long.
    have hsame := congrArg Path.components (List.mem_singleton.mp hmem)
    rw [h.components_extended cwd hlocation hplain hext hslash,
      h.components_partial cwd hlocation hplain hext hslash] at hsame
    have hlength := congrArg List.length (List.cons.inj (List.append_cancel_left hsame)).1
    simp at hlength

/-- The names of the candidates of a name without an extension. -/
theorem components_of_mem (hext : SafeExtensions unified extensions) {c : Text}
    (hc : c ∈ ((of unified extensions name).candidates cwd [location]).paths) :
    (∃ x, (x = [] ∨ x ∈ extensions) ∧ Path.components c
        = placedNames location (of unified extensions name).directory
          ++ [(Path.splitLast name).2 ++ x]) ∨
      ((Path.splitLast name).2.head? ≠ some '_' ∧ ∃ x, Path.components c
        = placedNames location (of unified extensions name).directory
          ++ ['_' :: ((Path.splitLast name).2 ++ x)]) ∨
      ∃ f, Path.components c = placedNames location (of unified extensions name).directory
        ++ [(Path.splitLast name).2, f] := by
  rw [paths_candidates_singleton, List.mem_eraseDups] at hc
  obtain ⟨v, hv, rfl⟩ := List.mem_map.mp hc
  rw [h.variants_eq] at hv
  rcases List.mem_append.mp hv with hv | hv
  · left
    rcases List.mem_cons.mp hv with rfl | hv
    · refine ⟨[], .inl rfl, ?_⟩
      rw [← h.components_extended cwd hlocation hplain (Uri.isPlain_nil unified) (by simp),
        List.append_nil]
    · obtain ⟨x, hx, rfl⟩ := List.mem_map.mp hv
      exact ⟨x, .inr hx, h.components_extended cwd hlocation hplain (hext x hx).2 (hext x hx).1⟩
  · right
    rcases List.mem_append.mp hv with hv | hv
    · left
      split at hv
      · simp at hv
      · rename_i hpartial
        obtain ⟨x, hx, rfl⟩ := List.mem_map.mp hv
        exact ⟨hpartial, x, h.components_partial cwd hlocation hplain (hext x hx).2 (hext x hx).1⟩
    · right
      obtain ⟨f, hf, rfl⟩ := List.mem_map.mp hv
      have hfile : IsFile unified f := isFile_index (n := of unified extensions name) hext hf
      exact ⟨f, h.components_inside cwd hlocation hplain hfile.plain
        (Path.isName_of_not_dots hfile.no_slash ⟨'i', mem_indexFile hf, by decide⟩)⟩

/-- A name with an extension that is recognized has candidates that the name has without it. -/
theorem sublist_of_known (hext : SafeExtensions unified extensions) {e : Text} (hdot : '.' ∈ e)
    (he : e ∈ extensions) (hknown : Text.fromLast '.' e ∈ extensions) :
    ((of unified extensions (name ++ e)).candidates cwd [location]).paths.Sublist
      ((of unified extensions name).candidates cwd [location]).paths := by
  obtain ⟨heslash, heplain⟩ := hext e he
  rw [h.paths_of_known cwd hlocation hplain heplain heslash hdot hknown, paths_candidates_singleton,
    h.variants_eq, List.map_append]
  have hfile : (of unified extensions name).name ++ e ∈ (of unified extensions name).name
      :: extensions.map ((of unified extensions name).name ++ ·) :=
    List.mem_cons_of_mem _ (List.mem_map_of_mem he)
  split
  · exact List.singleton_sublist.mpr
      (List.mem_eraseDups.mpr (List.mem_append_left _ (List.mem_map_of_mem hfile)))
  · rename_i hpartial
    refine pair_sublist_eraseDups (List.mem_map_of_mem hfile) (List.mem_map_of_mem
      (List.mem_append_left _ (List.mem_map_of_mem he))) fun hmem => ?_
    -- No name in front of the partials starts with their mark.
    obtain ⟨v, hv, hsame⟩ := List.mem_map.mp hmem
    obtain ⟨x, hx, hxplain, rfl⟩ : ∃ x, '/' ∉ x ∧ Uri.IsPlain unified x ∧
        v = (of unified extensions name).name ++ x := by
      rcases List.mem_cons.mp hv with rfl | hv
      · exact ⟨[], by simp, Uri.isPlain_nil unified, (List.append_nil _).symm⟩
      · obtain ⟨x, hx, rfl⟩ := List.mem_map.mp hv
        exact ⟨x, (hext x hx).1, (hext x hx).2, rfl⟩
    have hnames := congrArg Path.components hsame
    rw [h.components_extended cwd hlocation hplain hxplain hx,
      h.components_partial cwd hlocation hplain heplain heslash] at hnames
    have hlast := (List.cons.inj (List.append_cancel_left hnames)).1
    rw [← h.head?_append x, hlast] at hpartial
    exact hpartial rfl

/-- Behind an extension that is not recognized the longest of all extensions makes a name that the
search for the shorter name does not come to. -/
theorem not_sublist_of_unknown (hext : SafeExtensions unified extensions) {e : Text}
    (hdot : '.' ∈ e) (he : e ∈ extensions) (hunknown : Text.fromLast '.' e ∉ extensions) :
    ¬ ((of unified extensions (name ++ e)).candidates cwd [location]).paths.Sublist
      ((of unified extensions name).candidates cwd [location]).paths := by
  intro hsublist
  obtain ⟨x, hx, hlongest⟩ := Finset.exists_max_image extensions.toFinset List.length
    ⟨e, List.mem_toFinset.mpr he⟩
  rw [List.mem_toFinset] at hx
  obtain ⟨heslash, heplain⟩ := hext e he
  obtain ⟨hxslash, hxplain⟩ := hext x hx
  have hne := List.length_pos_of_mem hdot
  have hmem := hsublist.subset (h.mem_of_unknown heplain heslash hdot hunknown hx cwd location)
  have hnames := h.components_extended cwd hlocation hplain (heplain.append hxplain)
    (by simp [heslash, hxslash])
  rcases h.components_of_mem cwd hlocation hplain hext hmem with
    ⟨y, hy, hfile⟩ | ⟨hpartial, y, hfile⟩ | ⟨f, hfile⟩
  all_goals
    have hlast := List.append_cancel_left (hnames.symm.trans hfile)
  · have hsame := congrArg List.length (List.append_cancel_left (List.cons.inj hlast).1)
    rw [List.length_append] at hsame
    rcases hy with rfl | hy
    · rw [List.length_nil] at hsame
      omega
    · have hle := hlongest y (List.mem_toFinset.mpr hy)
      omega
  · rw [← h.head?_append (e ++ x), (List.cons.inj hlast).1] at hpartial
    exact hpartial rfl
  · exact absurd (List.cons.inj hlast).2 (by simp)

end Places

end Bare

/-! ### Narrowing the search -/

/-- **Writing the extension narrows the search**, if what stands from its last dot on is recognized.
A name without an extension and the same name with one of the extensions, below a plain location:

* the candidates of the longer name are among those of the shorter one, in the same order, if and
  only if the extension from its last dot on is an extension too, and so if it has one dot alone;
* then the longer name has as candidates the file with that name and, unless the name is that of a
  partial, the partial beside it; both end in the extension. -/
theorem narrowed_by_extension {unified : Bool} {extensions : List Text}
    (hext : SafeExtensions unified extensions) (hdot : ∀ x ∈ extensions, x.head? = some '.')
    {name : Text} (h : Bare unified extensions name) {location : Text}
    (hlocation : Path.isAbsolute location = true) (hplain : Uri.IsPlain unified location)
    {e : Text} (he : e ∈ extensions) (cwd : Text) :
    let wide := ((of unified extensions name).candidates cwd [location]).paths
    let narrow := ((of unified extensions (name ++ e)).candidates cwd [location]).paths
    let base := (Path.splitLast name).2
    let dir := placedNames location (of unified extensions name).directory
    (narrow.Sublist wide ↔ Text.fromLast '.' e ∈ extensions) ∧
      ('.' ∉ e.tail → narrow.Sublist wide) ∧
      (Text.fromLast '.' e ∈ extensions →
        narrow.map Path.components
            = (dir ++ [base ++ e])
              :: (if base.head? = some '_' then [] else [dir ++ ['_' :: (base ++ e)]]) ∧
          ∀ c ∈ narrow, e <:+ c) := by
  intro wide narrow base dir
  have heplain := (hext e he).2
  have heslash := (hext e he).1
  have hedot : '.' ∈ e := List.mem_of_mem_head? (hdot e he)
  have hiff : narrow.Sublist wide ↔ Text.fromLast '.' e ∈ extensions := by
    refine ⟨fun hsublist => ?_, h.sublist_of_known cwd hlocation hplain hext hedot he⟩
    by_contra hunknown
    exact h.not_sublist_of_unknown cwd hlocation hplain hext hedot he hunknown hsublist
  refine ⟨hiff, fun hsingle => hiff.mpr ?_, fun hknown => ?_⟩
  · obtain ⟨t, rfl⟩ := List.head?_eq_some_iff.mp (hdot e he)
    rw [List.tail_cons] at hsingle
    rwa [Text.fromLast_cons hsingle]
  · have hnarrow : narrow = _ := h.paths_of_known cwd hlocation hplain heplain heslash hedot hknown
    have hfile := h.components_extended cwd hlocation hplain heplain heslash
    have hpartial := h.components_partial cwd hlocation hplain heplain heslash
    refine ⟨?_, ?_⟩
    · rw [hnarrow, List.map_cons, hfile]
      split
      · rfl
      · rw [List.map_cons, hpartial]
        rfl
    · intro c hc
      rw [hnarrow] at hc
      obtain ⟨n, hn, hname, hnormal, hnames⟩ : ∃ n, e <:+ n ∧ Path.IsName n ∧
          Path.normalize c = c ∧ Path.components c = dir ++ [n] := by
        rcases List.mem_cons.mp hc with rfl | hc
        · exact ⟨_, List.suffix_append base e, h.isName_append heslash,
            Path.normalize_normalize _, hfile⟩
        · split at hc
          · simp at hc
          · rw [List.mem_singleton.mp hc]
            exact ⟨_, (List.suffix_append base e).trans (List.suffix_cons _ _),
              h.isName_partial heslash, Path.normalize_normalize _, hpartial⟩
      exact hn.trans (Path.suffix_of_components hnormal hnames hname)

/-- The style of a button, with its extension and without, in a directory below the location. -/
theorem narrowed_by_extension_of_button :
    let name : Text := ['d', '/', 'b']
    let extensions : List Text := [['.', 'c'], ['.', 'm', '.', 'c']]
    let longer : Text := name ++ ['.', 'm', '.', 'c']
    let wide := ((of true extensions name).candidates ['/'] [['/', 's']]).paths
    let narrow := ((of true extensions longer).candidates ['/'] [['/', 's']]).paths
    SafeExtensions true extensions ∧ (∀ x ∈ extensions, x.head? = some '.') ∧
      Uri.IsPlain true ['/', 's'] ∧ narrow.Sublist wide ∧
      narrow.map Path.components
        = [[['s'], ['d'], ['b', '.', 'm', '.', 'c']],
          [['s'], ['d'], ['_', 'b', '.', 'm', '.', 'c']]] ∧
      ∀ c ∈ narrow, ['.', 'm', '.', 'c'] <:+ c := by
  intro name extensions longer wide narrow
  have hext : SafeExtensions true extensions := by unfold SafeExtensions; decide
  have hdot : ∀ x ∈ extensions, x.head? = some '.' := by decide
  have hbare : Bare true extensions name := ⟨by decide, ⟨'b', by decide, by decide⟩, by decide⟩
  have hlocation : Path.isAbsolute ['/', 's'] = true := by decide
  have hplain : Uri.IsPlain true ['/', 's'] := by decide
  have hnarrowed := narrowed_by_extension hext hdot hbare hlocation hplain
    (e := ['.', 'm', '.', 'c']) (by decide) ['/']
  have hknown : Text.fromLast '.' ['.', 'm', '.', 'c'] ∈ extensions := by decide
  exact ⟨hext, hdot, hplain, hnarrowed.1.mpr hknown,
    (hnarrowed.2.2 hknown).1.trans (by decide +kernel), (hnarrowed.2.2 hknown).2⟩

/-- An extension with two dots that is known only as a whole: the name with it is looked for with
the extension once more, where the name without it is not. -/
theorem not_narrowed_by_extension :
    let extension : Text := ['.', 'm', 'o', 'd', 'u', 'l', 'e', '.', 's', 'c', 's', 's']
    let wide := ((of true [extension] ['a']).candidates ['/'] [['/', 's']]).paths
    let narrow := ((of true [extension] ('a' :: extension)).candidates ['/'] [['/', 's']]).paths
    SafeExtensions true [extension] ∧ Bare true [extension] ['a'] ∧
      ['/', 's', '/', 'a'] ++ extension ++ extension ∈ narrow ∧
      ['/', 's', '/', 'a'] ++ extension ++ extension ∉ wide ∧ ¬ narrow.Sublist wide ∧
      ['/', 's', '/', '_', 'a'] ++ extension ∉ narrow := by
  intro extension wide narrow
  have hext : SafeExtensions true [extension] := by unfold SafeExtensions; decide
  have hbare : Bare true [extension] ['a'] := ⟨by decide, ⟨'a', by decide, by decide⟩, by decide⟩
  have hmem : ['/', 's', '/', 'a'] ++ extension ++ extension ∈ narrow := by decide +kernel
  have hnot : ['/', 's', '/', 'a'] ++ extension ++ extension ∉ wide := by decide +kernel
  exact ⟨hext, hbare, hmem, hnot, fun hsublist => hnot (hsublist.subset hmem), by decide +kernel⟩

end NameForm

end StyleImport
