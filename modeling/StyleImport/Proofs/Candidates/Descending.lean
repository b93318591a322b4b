/-
Names without a way up, as identifiers are read.

A text in which no name is `..`, wherever slashes and backslashes cut it (`Spelling.NoUp`), can
still spell a way up as an identifier: a name such as `..?x` is cut short.  Only its last name can
come about so, and then all that is spelled is `..`, or the names before it make up for it.

* `Uri.up_not_mem_pathOf` — the path of such an identifier has no `..` in it, or is `..`;
* `Uri.prefix_moveAll_spelled` — so from any place it leads down, or it spells `..`;
* `NameForm.extended_of_mem_variants` — a spelling of a name is a file in a directory, and an
  extension behind it;
* `NameForm.no_up_of_mem_variants` — so the spellings lead down, unless an extension leads up.
-/
import StyleImport.Proofs.Candidates.Location

namespace StyleImport

/-! ### Pieces of texts put together -/

namespace Text

/-- What follows a text leaves all its pieces but the last one as they are. -/
theorem dropLast_pieces_append (sep : Char) (s t : Text) :
    (pieces sep s).dropLast <+: pieces sep (s ++ t) := by
  induction s with
  | nil => exact List.nil_prefix
  | cons c cs ih =>
    obtain ⟨p, ps, hp⟩ := List.exists_cons_of_ne_nil (pieces_ne_nil sep cs)
    obtain ⟨q, qs, hq⟩ := List.exists_cons_of_ne_nil (pieces_ne_nil sep (cs ++ t))
    rw [hp, hq] at ih
    rw [List.cons_append, pieces, pieces, hp, hq]
    split
    · rw [List.dropLast_cons_cons, List.cons_prefix_cons]
      exact ⟨rfl, ih⟩
    · cases ps with
      | nil => exact List.nil_prefix
      | cons r rs =>
        rw [List.dropLast_cons_cons, List.cons_prefix_cons] at ih ⊢
        obtain ⟨rfl, hrest⟩ := ih
        exact ⟨rfl, hrest⟩

/-- A text that is not cut is put in front of the first piece. -/
theorem pieces_append_of_not_mem {sep : Char} {s : Text} (hs : sep ∉ s) {t p : Text}
    {ps : List Text} (h : pieces sep t = p :: ps) : pieces sep (s ++ t) = (s ++ p) :: ps := by
  induction s with
  | nil => exact h
  | cons c cs ih =>
    rw [List.mem_cons, not_or] at hs
    rw [List.cons_append, pieces, if_neg (Ne.symm hs.1), ih hs.2]
    rfl

end Text

namespace Path

/-- If only the last name is a way up, the normal form has none, or is one. -/
theorem up_not_mem_reduce {names : List Text} (h : up ∉ names.dropLast)
    (hne : reduce false names ≠ [up]) : up ∉ reduce false names := by
  rcases List.eq_nil_or_concat names with rfl | ⟨front, last, rfl⟩
  · simp [reduce]
  rw [List.concat_eq_append, List.dropLast_concat] at h
  have hfront : up ∉ front.foldl (pushName false) [] := by
    intro hmem
    have hreduced : up ∈ reduce false front := List.mem_reverse.mpr hmem
    exact h (mem_of_mem_reduce hreduced)
  have hreduce : reduce false (front.concat last)
      = (pushName false (front.foldl (pushName false) []) last).reverse := by
    simp [reduce]
  rw [hreduce, List.mem_reverse]
  rw [hreduce] at hne
  generalize front.foldl (pushName false) [] = stack at hfront hne ⊢
  by_cases hlast : last = up
  · subst hlast
    cases stack with
    | nil => exact absurd (by decide) hne
    | cons n ns =>
      -- The name before the way up is gone with it.
      rw [List.mem_cons, not_or] at hfront
      have hpush : pushName false (n :: ns) up = ns := by
        rw [pushName, if_neg (by decide), if_neg (by simp [Ne.symm hfront.1]), List.tail_cons]
      rw [hpush]
      exact hfront.2
  · unfold pushName
    split
    · exact hfront
    · split
      · exact fun hmem => (List.mem_cons.mp hmem).elim (fun h => hlast h.symm) hfront
      · exact fun hmem => hfront (List.mem_of_mem_tail hmem)

end Path

/-! ### Names without a way up -/

namespace Spelling

/-- Whether no name of a text is `..`, wherever slashes and backslashes cut it. -/
def NoUp (t : Text) : Prop := Path.up ∉ Text.pieces '/' (slashed true t)

instance (t : Text) : Decidable (NoUp t) :=
  inferInstanceAs (Decidable (Path.up ∉ Text.pieces '/' (slashed true t)))

theorem noUp_append_slash {s t : Text} : NoUp (s ++ '/' :: t) ↔ NoUp s ∧ NoUp t := by
  unfold NoUp
  rw [slashed_append, slashed_slash_cons, Text.pieces_append_sep, List.mem_append, not_or]

/-- Cutting at both separators is cutting at one and then at the other. -/
theorem pieces_slashed (t : Text) :
    Text.pieces '/' (slashed true t) = (Text.pieces '/' t).flatMap (Text.pieces '\\') := by
  induction t with
  | nil => rfl
  | cons c cs ih =>
    obtain ⟨p, ps, hp⟩ := List.exists_cons_of_ne_nil (Text.pieces_ne_nil '/' cs)
    obtain ⟨q, qs, hq⟩ := List.exists_cons_of_ne_nil (Text.pieces_ne_nil '\\' p)
    rw [hp, List.flatMap_cons, hq] at ih
    by_cases hslash : c = '/'
    · subst hslash
      rw [slashed_slash_cons, Text.pieces, if_pos rfl, ih, Text.pieces, if_pos rfl, hp]
      simp [Text.pieces, hq]
    · by_cases hback : c = '\\'
      · subst hback
        have hslashed : slashed true ('\\' :: cs) = '/' :: slashed true cs := by
          simp [slashed, isSeparator]
        rw [hslashed, Text.pieces, if_pos rfl, ih]
        simp [Text.pieces, hp, hq]
      · have hslashed : slashed true (c :: cs) = c :: slashed true cs := by
          simp [slashed, isSeparator, hslash, hback]
        rw [hslashed, Text.pieces, if_neg hslash, ih]
        simp [Text.pieces, hslash, hback, hp, hq]

/-- As an identifier, such a text has at most one way up, at the end of its path. -/
theorem NoUp.up_not_mem_dropLast {t : Text} (h : NoUp t) (unified : Bool) :
    Path.up ∉ (Text.pieces '/' (slashed unified (Uri.written t))).dropLast := by
  -- Both kinds of separators cut the path as they cut the text, up to the last name.
  have hunified : Path.up ∉ (Text.pieces '/' (slashed true (Uri.written t))).dropLast := by
    intro hmem
    have hsplit : t = Uri.written t ++ t.dropWhile (!Uri.isSuffixMark ·) :=
      List.takeWhile_append_dropWhile.symm
    have hstart := Text.dropLast_pieces_append '/' (slashed true (Uri.written t))
      (slashed true (t.dropWhile (!Uri.isSuffixMark ·)))
    rw [← slashed_append, ← hsplit] at hstart
    exact h (hstart.subset hmem)
  cases unified with
  | true => exact hunified
  | false =>
    intro hmem
    change Path.up ∈ (Text.pieces '/' (Uri.written t)).dropLast at hmem
    refine hunified ?_
    obtain ⟨front, last, hpieces⟩ :=
      (List.eq_nil_or_concat (Text.pieces '/' (Uri.written t))).resolve_left
        (Text.pieces_ne_nil _ _)
    rw [hpieces, List.concat_eq_append, List.dropLast_concat] at hmem
    rw [pieces_slashed, hpieces, List.concat_eq_append, List.flatMap_append, List.flatMap_singleton,
      List.dropLast_append_of_ne_nil (Text.pieces_ne_nil _ _), List.mem_append, List.mem_flatMap]
    exact .inl ⟨Path.up, hmem, by decide⟩

end Spelling

namespace Uri

variable {unified : Bool} {t : Text}

/-- The path of an identifier whose names are no ways up has none in it, or is one. -/
theorem up_not_mem_pathOf (h : Spelling.NoUp t) (hrel : Path.isAbsolute (pathOf unified t) = false)
    (hne : pathOf unified t ≠ Path.up) : Path.up ∉ Text.pieces '/' (pathOf unified t) := by
  rw [pathOf_eq] at hrel hne ⊢
  split at hrel
  · rename_i hnil
    rw [if_pos hnil]
    decide
  · rename_i hspelled
    rw [if_neg hspelled] at hne ⊢
    rw [Path.isAbsolute_normalize] at hrel
    have hanchor : Path.anchor (spelled unified t) = [] := by
      rcases Path.anchor_cases (spelled unified t) with ⟨_, ha⟩ | ⟨habs, _⟩
      · exact ha
      · simp [hrel] at habs
    have hcomponents : Path.reduce false (Text.pieces '/' (spelled unified t))
        = Path.reduce false (Text.pieces '/' (Spelling.slashed unified (written t))) := by
      rw [← Path.reduce_components, ← Path.reduce_components, spelled, Spelling.components_respell]
    have hreduced : Path.Reduced false
        (Path.reduce false (Text.pieces '/' (Spelling.slashed unified (written t)))) :=
      Path.reduced_reduce false (Path.no_slash_of_mem_pieces _)
    rw [Path.normalize_eq_ofNames, hrel, hanchor, hcomponents] at hne ⊢
    have hup := Path.up_not_mem_reduce (h.up_not_mem_dropLast unified)
    generalize Path.reduce false (Text.pieces '/' (Spelling.slashed unified (written t))) = names
      at hne hreduced hup ⊢
    rcases names with _ | ⟨n, ns⟩
    · decide
    · rw [Path.ofNames_nil_cons (hreduced.ne_nil List.mem_cons_self)] at hne ⊢
      rw [Text.pieces_joinWith (by simp) fun m hm => hreduced.no_slash hm]
      refine hup fun hsingle => hne ?_
      rw [hsingle, Text.joinWith_singleton]

/-- From any place such an identifier leads down, unless all that it spells is a way up. -/
theorem prefix_moveAll_spelled (h : Spelling.NoUp t)
    (hne : pathOf unified (Path.here ++ '/' :: t) ≠ Path.up) (place : List Text) :
    place <+: Path.moveAll place (Path.components (spelled unified t)) := by
  -- With a dot in front the identifier is relative, and leads where it did.
  set dotted := Path.here ++ '/' :: t with hdotted
  have hnoUp : Spelling.NoUp dotted := Spelling.noUp_append_slash.mpr ⟨by decide, h⟩
  have hrel : Path.isAbsolute (spelled unified dotted) = false := by
    have hwritten : written dotted = '.' :: written ('/' :: t) := by
      simp [hdotted, Path.here, written_cons, isSuffixMark]
    rw [spelled, Spelling.isAbsolute_respell, hwritten]
    cases unified <;> simp [Spelling.slashed, Spelling.isSeparator, Path.isAbsolute]
  have hcomponents : Path.components (spelled unified dotted)
      = Path.here :: Path.components (spelled unified t) := by
    have hdot : Path.components (spelled unified Path.here) = [Path.here] := by
      cases unified <;> decide
    rw [hdotted, components_spelled_append_slash, if_neg (by decide), hdot, List.singleton_append]
  have hpath : pathOf unified dotted = Path.normalize (spelled unified dotted) := by
    rw [pathOf_eq, if_neg]
    intro hnil
    simp [hnil, Path.components, Text.pieces] at hcomponents
  have hup : Path.up ∉ Path.components (pathOf unified dotted) := by
    intro hmem
    refine up_not_mem_pathOf hnoUp ?_ hne (List.mem_filter.mp hmem).1
    rw [hpath, Path.isAbsolute_normalize, hrel]
  have hsame : Path.moveAll place (Path.components (spelled unified t))
      = Path.moveAll place (Path.components (pathOf unified dotted)) := by
    rw [hpath, Path.moveAll_components_normalize hrel, hcomponents, Path.moveAll_cons,
      Path.move_here]
  rw [hsame]
  exact Path.prefix_moveAll hup place

end Uri

namespace NameForm

/-! ### Files with extensions -/

/-- A spelling that is a file in a directory that is led down to, and an extension behind it.  If
the file is a dot, the name is. -/
inductive Extended (n : NameForm) : Text → Prop
  | file {d f e : Text} : (d = [] ∨ LeadsDown n.unified d) → IsFile n.unified f →
    (e = [] ∨ e ∈ n.extensions) → (f = Path.here → n.name = Path.here) →
    Extended n (inDirectory d (f ++ e))

variable {n : NameForm}

theorem extended_indexFile {d : Text} (hd : d = [] ∨ LeadsDown n.unified d) {f : Text}
    (hf : f ∈ n.indexFiles) : Extended n (inDirectory d f) := by
  obtain ⟨e, he, hf⟩ := List.mem_flatMap.mp hf
  obtain ⟨name, hname, rfl⟩ := List.mem_map.mp hf
  refine .file hd (isFile_indexName n.unified hname) (.inr he) fun hhere => ?_
  rw [hhere] at hname
  exact absurd hname (by decide)

theorem Descends.extended_partial (h : n.Descends) {es : List Text} (hes : es ⊆ n.extensions)
    {v : Text} (hv : v ∈ n.partials es) : Extended n v := by
  unfold partials at hv
  split at hv
  · simp at hv
  · obtain ⟨e, he, rfl⟩ := List.mem_map.mp hv
    exact .file h.directory h.isFile_partialStem (.inr (hes he)) fun hhere => by
      simp [partialStem, Path.here] at hhere

/-- Every spelling of a name that descends is such a file. -/
theorem extended_of_mem_variants (h : n.name ≠ [] → n.Descends)
    (hhere : n.base = Path.here → n.name = Path.here) {v : Text} (hv : v ∈ n.variants) :
    Extended n v := by
  unfold variants at hv
  split at hv
  · -- A location alone is spelled by its index files.
    have hfile : Extended n (inDirectory [] v) := extended_indexFile (.inl rfl) hv
    exact hfile
  · rename_i hname
    have hn : n.Descends := h hname
    have hbase : ∀ e, e = [] ∨ e ∈ n.extensions → Extended n (n.name ++ e) := by
      intro e he
      rw [hn.name_eq, inDirectory_append]
      exact .file hn.directory hn.base he hhere
    have hself : Extended n n.name := by
      have hnil := hbase [] (.inl rfl)
      rwa [List.append_nil] at hnil
    split at hv
    · rename_i e hgiven
      rcases List.mem_cons.mp hv with rfl | hv
      · exact hself
      · exact hn.extended_partial (by simpa using hn.given e hgiven) hv
    · simp only [List.cons_append, List.mem_cons, List.mem_append, List.mem_map] at hv
      rcases hv with rfl | (⟨e, he, rfl⟩ | hv) | ⟨f, hf, rfl⟩
      · exact hself
      · exact hbase e (.inr he)
      · exact hn.extended_partial (List.Subset.refl _) hv
      · have hdown : LeadsDown n.unified n.name := by
          rw [hn.name_eq]
          exact leadsDown_inDirectory hn.directory hn.base
        exact extended_indexFile (.inr hdown) hf

/-- Whether an extension may lead up: it has a `..` behind a separator, or it makes one out of a
dot. -/
def LeadsUp (n : NameForm) (e : Text) : Prop :=
  Path.up ∈ (Text.pieces '/' (Uri.spelled n.unified e)).tail ∨
    n.name = Path.here ∧ (Text.pieces '/' (Uri.spelled n.unified e)).head? = some Path.here

instance (n : NameForm) (e : Text) : Decidable (n.LeadsUp e) :=
  inferInstanceAs (Decidable (_ ∨ _))

/-- The names that a file with an extension spells. -/
theorem pieces_spelled_append {unified : Bool} {f : Text} (hf : IsFile unified f) (e : Text)
    {p : Text} {ps : List Text} (h : Text.pieces '/' (Uri.spelled unified e) = p :: ps) :
    Text.pieces '/' (Uri.spelled unified (f ++ e)) = (f ++ p) :: ps := by
  have hwritten : Uri.written (f ++ e) = f ++ Uri.written e := by
    rw [Uri.written, List.takeWhile_append_of_pos fun c hc => by simp [(hf.plain c hc).1]]
    rfl
  have hspelled : Uri.spelled unified (f ++ e) = f ++ Uri.spelled unified e := by
    rw [Uri.spelled, hwritten, Uri.spelled]
    cases unified with
    | false => rfl
    | true =>
      refine Spelling.unifyRuns_append (fun c hc => ?_) hf.ne_nil false _
      have hslash : c ≠ '/' := fun hslash => hf.no_slash (hslash ▸ hc)
      simp [Spelling.isSeparator, hslash, (hf.plain c hc).2 rfl]
  rw [hspelled, Text.pieces_append_of_not_mem hf.no_slash h]

/-- Without an extension nothing leads up. -/
theorem not_leadsUp_nil (n : NameForm) : ¬ n.LeadsUp [] := by
  rintro (hup | ⟨-, hdot⟩)
  · cases hn : n.unified <;> rw [hn] at hup <;> exact absurd hup (by decide)
  · cases hn : n.unified <;> rw [hn] at hdot <;> exact absurd hdot (by decide)

/-- A file with an extension spells no way up, unless the extension leads up. -/
theorem up_not_mem_spelled_file {f e : Text} (hf : IsFile n.unified f)
    (hhere : f = Path.here → n.name = Path.here) (he : ¬ n.LeadsUp e) :
    Path.up ∉ Path.components (Uri.spelled n.unified (f ++ e)) := by
  obtain ⟨p, ps, hp⟩ := List.exists_cons_of_ne_nil
    (Text.pieces_ne_nil '/' (Uri.spelled n.unified e))
  unfold LeadsUp at he
  rw [hp, List.tail_cons, List.head?_cons, not_or] at he
  intro hmem
  have hpiece := (List.mem_filter.mp hmem).1
  rw [pieces_spelled_append hf e hp, List.mem_cons] at hpiece
  rcases hpiece with hup | hup
  · -- Two dots come about only as one and another one.
    rcases List.append_eq_cons_iff.mp hup.symm with ⟨hnil, -⟩ | ⟨rest, hfirst, hrest⟩
    · exact hf.ne_nil hnil
    · rcases List.append_eq_cons_iff.mp hrest.symm with ⟨rfl, hdot⟩ | ⟨rest', rfl, hnone⟩
      · exact he.2 ⟨hhere hfirst, by rw [hdot]; rfl⟩
      · refine hf.ne_up ?_
        rw [hfirst, (List.append_eq_nil_iff.mp hnone.symm).1, Path.up]
  · exact he.1 hup

/-- Such a file is relative and no name that it spells is a way up, unless the extension leads
up. -/
theorem Extended.no_up {v : Text} (h : Extended n v) (hext : ∀ e ∈ n.extensions, ¬ n.LeadsUp e) :
    Path.isAbsolute v = false ∧ Path.up ∉ Path.components (Uri.spelled n.unified v) := by
  obtain @⟨d, f, e, hd, hf, he, hhere⟩ := h
  have hquiet : ¬ n.LeadsUp e := by
    rcases he with rfl | he
    · exact n.not_leadsUp_nil
    · exact hext e he
  have hfile := up_not_mem_spelled_file hf hhere hquiet
  have habs : Path.isAbsolute (f ++ e) = false := by
    rw [Path.isAbsolute_append_of_ne_nil hf.ne_nil]
    exact hf.leadsDown.relative
  unfold inDirectory
  by_cases hnil : d = []
  · rw [if_pos hnil]
    exact ⟨habs, hfile⟩
  · obtain hd : LeadsDown n.unified d := hd.resolve_left hnil
    have hroot : d ≠ ['/'] := fun h => by simpa [h, Path.isAbsolute] using hd.relative
    rw [if_neg hnil, if_neg hroot]
    refine ⟨(Path.isAbsolute_append_of_ne_nil hnil _).trans hd.relative, ?_⟩
    rw [hd.plain.components_spelled_below, List.mem_append, not_or]
    exact ⟨hd.plain.components_spelled ▸ hd.no_up, hfile⟩

/-- Only the dot itself has a dot for its last name. -/
theorem name_eq_here_of_base {unified : Bool} {extensions : List Text} {name : Text}
    (hrel : Path.isAbsolute (Uri.pathOf unified name) = false)
    (h : (of unified extensions name).base = Path.here) :
    (of unified extensions name).name = Path.here := by
  rw [base_of] at h
  rw [name_of]
  rcases hcut : Text.cutLast '/' (Uri.pathOf unified name) with _ | ⟨before, after⟩
  · rwa [hcut, Option.getD_none] at h
  · rw [hcut, Option.getD_some] at h
    have hp := Text.eq_of_cutLast hcut
    have hne : Uri.pathOf unified name ≠ [] := by simp [hp]
    refine (Uri.pieces_pathOf hne hrel).resolve_right fun hproper => ?_
    refine (hproper Path.here ?_).2 rfl
    rw [hp, Text.pieces_append_sep, List.mem_append, show after = Path.here from h]
    exact .inr (by decide)

/-- Every spelling of a relative name without a way up is relative and spells none, unless an
extension leads up. -/
theorem no_up_of_mem_variants {unified : Bool} {extensions : List Text} {name : Text}
    (hname : Spelling.NoUp name) (hrel : Path.isAbsolute (Uri.pathOf unified name) = false)
    (hne : Uri.pathOf unified name ≠ Path.up)
    (hext : ∀ e ∈ extensions, ¬ (of unified extensions name).LeadsUp e) {v : Text}
    (hv : v ∈ (of unified extensions name).variants) :
    Path.isAbsolute v = false ∧ Path.up ∉ Path.components (Uri.spelled unified v) := by
  have hdot : Uri.pathOf unified name = Path.here → Path.here ∉ extensions := by
    intro hhere hmem
    refine hext _ hmem (.inr ⟨(name_of unified extensions name).trans hhere, ?_⟩)
    rw [unified_of]
    cases unified <;> decide
  have hdescends : (of unified extensions name).name ≠ [] → (of unified extensions name).Descends :=
    fun hnonempty => descends_of hrel (Uri.up_not_mem_pathOf hname hrel hne) hdot
      (by rwa [name_of] at hnonempty)
  exact (extended_of_mem_variants hdescends (name_eq_here_of_base hrel) hv).no_up hext

end NameForm

end StyleImport
