/-
Candidates below a directory that is spelled in two ways.

A relative path that never goes up spells a directory in short; in full it is the path of the names
of the working directory and its own.  Where the working directory has no characters that are
special to identifiers, both spellings have the same candidates, apart from two spellings that the
joining with a slash turns into something else: the short one that starts with what counts as a
slash, and the full one that is nothing but a slash.

* `Uri.moveAll_spelled_names` — dots and doubled slashes in front of a spelling lead nowhere;
* `Respelled.absolute_place` — a spelling of a name is at the same place below either;
* `Candidates.addAll_below_congr` — so the candidates are the same.
-/
import StyleImport.Proofs.Candidates.Location
import StyleImport.Proofs.Path.Directory

namespace StyleImport

namespace Uri

theorem spelled_here (unified : Bool) : spelled unified Path.here = Path.here := by
  cases unified <;> decide

theorem spelled_nil (unified : Bool) : spelled unified [] = [] := by
  cases unified <;> decide

/-- Dots and empty names in front of a text lead nowhere. -/
theorem moveAll_spelled_names (unified : Bool) (place names : List Text) (t : Text) :
    Path.moveAll place (Path.components (spelled unified (Text.joinWith ['/'] (names ++ [t]))))
      = Path.moveAll place (Path.components (spelled unified
          (Text.joinWith ['/'] (names.filter (fun n => n ≠ [] && n ≠ Path.here) ++ [t])))) := by
  induction names generalizing place with
  | nil => rfl
  | cons n ns ih =>
    rw [List.cons_append, Text.joinWith_cons n (by simp), components_spelled_append_slash]
    by_cases hn : n = [] ∨ n = Path.here
    · have hmark : n.any isSuffixMark = false := by
        rcases hn with rfl | rfl <;> decide
      have hstay : Path.moveAll place (Path.components (spelled unified n)) = place := by
        rcases hn with rfl | rfl
        · rw [spelled_nil]
          rfl
        · rw [spelled_here]
          simp [Path.components_of_no_slash (n := Path.here) (by decide) (by decide)]
      have hskip : (n :: ns).filter (fun n => n ≠ [] && n ≠ Path.here)
          = ns.filter (fun n => n ≠ [] && n ≠ Path.here) :=
        List.filter_cons_of_neg (by rcases hn with rfl | rfl <;> simp)
      rw [hmark, if_neg (by simp), Path.moveAll_append, hstay, hskip]
      exact ih place
    · rw [not_or] at hn
      rw [List.filter_cons_of_pos (by simpa using hn), List.cons_append,
        Text.joinWith_cons n (by simp), components_spelled_append_slash]
      split
      · rfl
      · rw [Path.moveAll_append, Path.moveAll_append]
        exact ih _

/-- Plain names in front of texts are names of what these spell. -/
theorem components_spelled_names {unified : Bool} {names more : List Text}
    (hnames : ∀ n ∈ names, Path.IsName n) (hplain : ∀ n ∈ names, IsPlain unified n)
    (hmore : more ≠ []) :
    Path.components (spelled unified (Text.joinWith ['/'] (names ++ more)))
      = names ++ Path.components (spelled unified (Text.joinWith ['/'] more)) := by
  induction names with
  | nil => rfl
  | cons n ns ih =>
    have hn : Path.IsName n := hnames n List.mem_cons_self
    have hnplain : IsPlain unified n := hplain n List.mem_cons_self
    rw [List.cons_append, Text.joinWith_cons n (by simp [hmore]), hnplain.components_spelled_below,
      Path.components_of_no_slash hn.no_slash hn.ne_nil,
      ih (fun m hm => hnames m (List.mem_cons_of_mem _ hm))
        fun m hm => hplain m (List.mem_cons_of_mem _ hm)]
    rfl

/-- A spelling is relative unless it starts with what counts as a slash. -/
theorem isAbsolute_spelled_of_relative {unified : Bool} {t : Text}
    (hrel : Path.isAbsolute t = false) (hback : unified = true → t.head? ≠ some '\\') :
    Path.isAbsolute (spelled unified t) = false := by
  rw [spelled, Spelling.isAbsolute_respell]
  cases t with
  | nil => cases unified <;> rfl
  | cons c cs =>
    have hslash : c ≠ '/' := by
      rintro rfl
      simp [Path.isAbsolute] at hrel
    rw [written_cons]
    split
    · cases unified <;> rfl
    · cases unified with
      | false => simp [Spelling.slashed, Path.isAbsolute, hslash]
      | true =>
        have hc : c ≠ '\\' := by simpa using hback rfl
        simp [Spelling.slashed, Spelling.isSeparator, Path.isAbsolute, hslash, hc]

/-- A spelling that starts with a single slash still does when it is read, and where separators are
unified any number of them will do. -/
theorem anchor_spelled (unified : Bool) {t : Text} (habs : Path.isAbsolute t = true)
    (h : unified = false → Path.anchor t = ['/']) : Path.anchor (spelled unified t) = ['/'] := by
  have hspelled := isAbsolute_spelled unified habs
  cases unified with
  | true =>
    have hcases := Spelling.anchor_unifyRuns (written t)
    rw [spelled, Spelling.respell, if_pos rfl] at hspelled ⊢
    refine hcases.resolve_left fun hnil => ?_
    rcases Path.anchor_cases (Spelling.unifyRuns ['/'] false (written t)) with
      ⟨hrel, -⟩ | ⟨-, ha | ha⟩
    · simp [hrel] at hspelled
    · simp [hnil] at ha
    · simp [hnil] at ha
  | false =>
    have ht := h rfl
    show Path.anchor (written t) = ['/']
    obtain ⟨cs, rfl⟩ := Path.eq_cons_of_isAbsolute habs
    -- A mark may cut the text off, but nowhere between the slashes that it starts with.
    rcases cs with _ | ⟨c, cs⟩
    · rfl
    · by_cases hc : c = '/'
      · subst hc
        rcases cs with _ | ⟨d, ds⟩
        · simp [Path.anchor] at ht
        · by_cases hd : d = '/'
          · subst hd
            rw [written_slash_cons, written_slash_cons, written_slash_cons]
            rfl
          · simp [Path.anchor, hd] at ht
      · rw [written_slash_cons, written_cons]
        split
        · rfl
        · simp [Path.anchor, hc]

/-- What is spelled below a path of names. -/
theorem components_spelled_pathOf (unified : Bool) (names : List Text) (t : Text) :
    Path.components (spelled unified (Disk.pathOf names ++ '/' :: t))
      = Path.components (spelled unified (Text.joinWith ['/'] (names ++ [t]))) := by
  have hslash (t : Text) :
      Path.components (spelled unified ('/' :: t)) = Path.components (spelled unified t) := by
    have happend := components_spelled_append_slash unified [] t
    simpa [spelled_nil, Path.components, Text.pieces] using happend
  rw [Disk.pathOf, List.cons_append, hslash]
  by_cases hnil : names = []
  · subst hnil
    exact (hslash t).trans (by simp [Text.joinWith, List.intercalate])
  · rw [Text.joinWith_concat t hnil]

end Uri

/-- A directory in short and in full, where nothing but its own names is special to identifiers. -/
structure Respelled (unified : Bool) (cwd : List Text) (dir : Text) : Prop where
  cwd_isName : ∀ n ∈ cwd, Path.IsName n
  cwd_plain : ∀ n ∈ cwd, Uri.IsPlain unified n
  ne_nil : dir ≠ []
  relative : Path.isAbsolute dir = false
  no_up : Path.up ∉ Path.components dir
  no_backslash : unified = true → dir.head? ≠ some '\\'
  not_root : unified = false → cwd ++ Path.names dir ≠ []

namespace Respelled

variable {unified : Bool} {cwd : List Text} {dir : Text} (h : Respelled unified cwd dir)

include h

theorem isName_full : ∀ n ∈ cwd ++ Path.names dir, Path.IsName n := by
  intro n hn
  rcases List.mem_append.mp hn with hn | hn
  · exact h.cwd_isName n hn
  · exact Path.isName_of_mem_names h.no_up hn

/-- What is spelled below the directory leads to one place. -/
theorem moveAll_spelled (v : Text) :
    Path.moveAll []
        (cwd ++ Path.components (Uri.spelled unified (dir ++ '/' :: v)))
      = Path.moveAll [] (Path.components (Uri.spelled unified
          (Disk.pathOf (cwd ++ Path.names dir) ++ '/' :: v))) := by
  have hshort : dir ++ '/' :: v = Text.joinWith ['/'] (Text.pieces '/' dir ++ [v]) := by
    rw [Text.joinWith_concat v (Text.pieces_ne_nil '/' dir), Text.joinWith_pieces]
  rw [Uri.components_spelled_pathOf, List.append_assoc,
    Uri.components_spelled_names h.cwd_isName h.cwd_plain (by simp), Path.moveAll_append,
    Path.moveAll_append, hshort, Uri.moveAll_spelled_names]
  rfl

/-- A spelling of a name is at the same place below either. -/
theorem absolute_place {n : NameForm} (hn : n.unified = unified) (v : Text) :
    Path.absolute (Disk.pathOf cwd) (n.place dir v)
      = Path.absolute (Disk.pathOf cwd) (n.place (Disk.pathOf (cwd ++ Path.names dir)) v) := by
  have hjoin (location : Text) : Text.joinWith ['/'] [location, v] = location ++ '/' :: v := by
    simp [Text.joinWith, List.intercalate]
  unfold NameForm.place
  split
  · rfl
  · rw [hn, hjoin, hjoin, Uri.absolute_pathOf rfl, Uri.absolute_pathOf rfl]
    have hshort : Path.isAbsolute (Uri.spelled unified (dir ++ '/' :: v)) = false := by
      refine Uri.isAbsolute_spelled_of_relative ?_ ?_
      · rw [Path.isAbsolute_append_of_ne_nil h.ne_nil]
        exact h.relative
      · intro hunified
        rw [List.head?_append, Option.or_of_isSome (by simpa using h.ne_nil)]
        exact h.no_backslash hunified
    have hfull : Path.isAbsolute (Uri.spelled unified
        (Disk.pathOf (cwd ++ Path.names dir) ++ '/' :: v)) = true :=
      Uri.isAbsolute_spelled unified rfl
    rw [Path.absolute_of_relative rfl hshort, Path.absolute_of_isAbsolute _ hfull,
      Path.normalize_of_isAbsolute hfull, Path.anchor_pathOf h.cwd_isName,
      Path.components_pathOf h.cwd_isName, h.moveAll_spelled]
    congr 1
    refine (Uri.anchor_spelled unified rfl fun hunified => ?_).symm
    -- The full path goes on with a name after its first slash.
    obtain ⟨m, ms, hnames⟩ := List.exists_cons_of_ne_nil (h.not_root hunified)
    have hm : Path.IsName m := h.isName_full m (by simp [hnames])
    obtain ⟨c, cs, rfl⟩ := List.exists_cons_of_ne_nil hm.ne_nil
    have hc : c ≠ '/' := fun hc => hm.no_slash (hc ▸ List.mem_cons_self)
    have hhead : (Text.joinWith ['/'] ((c :: cs) :: ms) ++ '/' :: v).head? ≠ some '/' := by
      cases ms <;> simp [Text.joinWith, List.intercalate, hc]
    rw [hnames]
    exact Path.anchor_append hhead ['/']

/-- A path seen from the directory is the same path from either. -/
theorem absolute_join (p : Text) :
    Path.absolute (Disk.pathOf cwd) (Path.join dir p)
      = Path.absolute (Disk.pathOf cwd)
          (Path.join (Disk.pathOf (cwd ++ Path.names dir)) p) := by
  cases hp : Path.isAbsolute p with
  | true => simp [Path.join, hp]
  | false =>
    have hshort : Path.isAbsolute (Path.join dir p) = false := by
      rcases Path.join_cases dir hp with ⟨-, hjoin⟩ | hjoin <;>
        rw [hjoin, Path.isAbsolute_append_of_ne_nil h.ne_nil] <;> exact h.relative
    have hroot : Path.isAbsolute (Disk.pathOf (cwd ++ Path.names dir)) = true := rfl
    have hfull := Path.isAbsolute_join hroot p
    rw [Path.absolute_of_relative rfl hshort, Path.absolute_of_isAbsolute _ hfull,
      Path.normalize_of_isAbsolute hfull, Path.anchor_join rfl hp,
      Path.anchor_pathOf h.cwd_isName, Path.anchor_pathOf h.isName_full,
      Path.components_join hp, Path.components_join hp, Path.components_pathOf h.cwd_isName,
      Path.components_pathOf h.isName_full, ← List.append_assoc, Path.moveAll_append,
      Path.moveAll_append [] (cwd ++ Path.names dir), Path.moveAll_append,
      Path.moveAll_of_isName h.cwd_isName, Path.moveAll_of_isName h.isName_full,
      Path.moveAll_of_no_up h.no_up]
    rfl

end Respelled

namespace Candidates

theorem add_congr {cwd p q : Text} (h : Path.absolute cwd p = Path.absolute cwd q)
    (cs : Candidates) : cs.add cwd p = cs.add cwd q := by
  unfold add
  simp only [h]

/-- A name has the same candidates below two locations that put its spellings at the same places. -/
theorem addAll_below_congr {cwd location location' : Text} {n : NameForm}
    (h : ∀ v, Path.absolute cwd (n.place location v) = Path.absolute cwd (n.place location' v))
    (cs : Candidates) :
    cs.addAll cwd (n.below location) = cs.addAll cwd (n.below location') := by
  unfold NameForm.below addAll
  generalize n.variants = vs
  induction vs generalizing cs with
  | nil => rfl
  | cons v vs ih =>
    rw [List.map_cons, List.map_cons, List.foldl_cons, List.foldl_cons, add_congr (h v)]
    exact ih _

end Candidates

end StyleImport
