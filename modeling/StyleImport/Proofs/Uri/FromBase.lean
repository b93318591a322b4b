/-
The path of an identifier seen from a base directory.

Below the base the path is written as the way down from there.  Whether it is below is told by its
text, which starts with the text of the base also if its name goes on where the base's last name
ends: then it is beside the base, and the way to it goes up first.

* `Uri.Comparable` — a base and a path in normal form that start at the same place;
* `Uri.Comparable.pathWith_eq` — the path as it is seen from the base;
* `Uri.pathWith_from_base` — below the base it leads down and is found again, beside the base it
  goes up, and elsewhere it stays as it is.
-/
import StyleImport.Proofs.Path.Way
import StyleImport.Proofs.Uri.RoundTrip

namespace StyleImport

namespace Uri

/-- A base and a path with unified separators, both in normal form, and both from the root or both
relative and never going up. -/
structure Comparable (base p : Text) : Prop where
  base_ne_nil : base ≠ []
  base_unified : Spelling.respell true ['/'] base = base
  base_normal : Path.normalize base = base
  base_no_up : Path.up ∉ Path.components base
  unified : Spelling.respell true ['/'] p = p
  normal : p ≠ [] → Path.normalize p = p
  no_up : Path.up ∉ Path.components p
  kind : Path.isAbsolute base = Path.isAbsolute p

/-- With unified separators, a path has at most one slash in front. -/
theorem anchor_of_unified {t : Text} (h : Spelling.respell true ['/'] t = t) :
    Path.anchor t = if Path.isAbsolute t then ['/'] else [] := by
  have hanchor := Spelling.anchor_unifyRuns t
  have hunified : Spelling.unifyRuns ['/'] false t = t := h
  rw [hunified] at hanchor
  rcases Path.anchor_cases t with ⟨hkind, ha⟩ | ⟨hkind, ha | ha⟩
  · rw [ha, hkind]
    rfl
  · rw [ha, hkind]
    rfl
  · simp [ha] at hanchor

/-- Names put together have nothing to unify but what is in them. -/
theorem respell_ofNames {ns : List Text} (hne : ∀ n ∈ ns, n ≠ [])
    (hsep : ∀ n ∈ ns, ∀ c ∈ n, Spelling.isSeparator c = false) :
    Spelling.respell true ['/'] (Path.ofNames [] ns) = Path.ofNames [] ns := by
  cases ns with
  | nil => decide
  | cons n ns =>
    rw [Path.ofNames_nil_cons (hne n List.mem_cons_self)]
    exact Spelling.unifyRuns_joinWith hne hsep false

namespace Comparable

variable {base p : Text} (h : Comparable base p)

include h

theorem anchor_eq : Path.anchor base = Path.anchor p := by
  rw [anchor_of_unified h.base_unified, anchor_of_unified h.unified, h.kind]

theorem eq_ofNames (hp : p ≠ []) : p = Path.ofNames (Path.anchor base) (Path.names p) := by
  rw [h.anchor_eq]
  exact Path.eq_ofNames_of_normal h.no_up (h.normal hp)

theorem isName_of_mem {n : Text} (hn : n ∈ Path.names p) : Path.IsName n :=
  Path.isName_of_mem_names h.no_up hn

/-- The path as it is seen from the base. -/
theorem pathWith_eq {cwd : Text} (hcwd : Path.isAbsolute cwd = true) {u : Uri} {b sep : Text}
    (hspelling : u.spelling = {}) (hpath : u.path = p) (hb : b ≠ [])
    (hbase : Spelling.respell true ['/'] b = base) (hsep : sep = [] ∨ sep = ['/']) :
    u.pathWith cwd sep b
      = if base.isPrefixOf p then
          Path.ofNames [] (Path.wayNames (Path.names base) (Path.names p))
        else p := by
  have hway : ∀ n ∈ Path.wayNames (Path.names base) (Path.names p),
      n ≠ [] ∧ ∀ c ∈ n, Spelling.isSeparator c = false := by
    intro n hn
    rcases Path.mem_wayNames hn with rfl | hn
    · simp [Path.up, Spelling.isSeparator]
    · have hname := h.isName_of_mem hn
      refine ⟨hname.ne_nil, fun c hc => ?_⟩
      have hslash : c ≠ '/' := fun hslash => hname.no_slash (hslash ▸ hc)
      have hback : c ≠ '\\' := by
        rintro rfl
        have hunified : Spelling.unifyRuns ['/'] false p = p := h.unified
        refine Spelling.backslash_not_mem_unifyRuns false p ?_
        rw [hunified]
        exact Path.mem_of_mem_components (Path.mem_components_of_mem_names hn) hc
      simp [Spelling.isSeparator, hslash, hback]
  have hrespell := respell_ofNames (fun n hn => (hway n hn).1) fun n hn => (hway n hn).2
  have hslash : (if sep = [] then ({} : Spelling).separator else sep) = ['/'] := by
    rcases hsep with rfl | rfl <;> rfl
  rw [pathWith, hspelling, hpath, if_neg hb]
  dsimp only
  rw [hslash, h.unified, hbase]
  split
  · rw [Path.relative_eq hcwd h.kind h.no_up h.base_no_up, hrespell]
  · exact h.unified

/-- Below the base, the path is the way down from there. -/
theorem pathWith_of_prefix {rest : List Text} (hp : p ≠ [])
    (hnames : Path.names p = Path.names base ++ rest) :
    (if base.isPrefixOf p then Path.ofNames [] (Path.wayNames (Path.names base) (Path.names p))
      else p) = Path.ofNames [] rest := by
  split
  · rw [hnames, Path.wayNames_prefix]
  · rename_i hnot
    rw [List.isPrefixOf_iff_prefix] at hnot
    -- Only the text of a dot is not how the paths below it start.
    have hnil : Path.names base = [] := by
      refine by_contra fun hne => hnot ?_
      obtain ⟨front, name, hbase⟩ := (List.eq_nil_or_concat (Path.names base)).resolve_left hne
      rw [List.concat_eq_append] at hbase
      have hbelow : Path.names p = front ++ (name ++ []) :: rest := by
        rw [hnames, hbase, List.append_nil, List.append_assoc]
        rfl
      exact Path.isPrefix_of_names h.base_no_up h.base_normal h.no_up (h.normal hp) h.anchor_eq
        hbase hbelow
    have hroot : Path.isAbsolute base = false := by
      rw [← Bool.not_eq_true]
      intro habsolute
      refine hnot ?_
      obtain ⟨cs, hcs⟩ := Path.eq_cons_of_isAbsolute (h.kind ▸ habsolute)
      have hslash : base = ['/'] := by
        rw [Path.eq_ofNames_of_normal h.base_no_up h.base_normal, hnil,
          anchor_of_unified h.base_unified, habsolute]
        rfl
      rw [hslash, hcs]
      exact ⟨cs, rfl⟩
    have hself := h.eq_ofNames hp
    rw [anchor_of_unified h.base_unified, hroot, hnames, hnil] at hself
    exact hself

/-- Beside the base, the way to the path goes up first. -/
theorem pathWith_of_beside (hp : p ≠ []) {front : List Text} {name more : Text}
    {below : List Text} (hmore : more ≠ []) (hbase : Path.names base = front ++ [name])
    (hnames : Path.names p = front ++ (name ++ more) :: below) :
    (if base.isPrefixOf p then Path.ofNames [] (Path.wayNames (Path.names base) (Path.names p))
      else p) = Text.joinWith ['/'] (Path.up :: (name ++ more) :: below) := by
  have hprefix : base <+: p := Path.isPrefix_of_names h.base_no_up h.base_normal h.no_up
    (h.normal hp) h.anchor_eq hbase hnames
  have hne : name ≠ name ++ more := by simpa using hmore
  rw [if_pos (List.isPrefixOf_iff_prefix.mpr hprefix), hbase, hnames, Path.wayNames_append,
    Path.wayNames_of_ne hne, Path.ofNames_nil_cons (by decide)]

/-- A path that is neither below the base nor beside it stays as it is. -/
theorem pathWith_of_elsewhere (hnames : ¬ Path.names base <+: Path.names p)
    (hbeside : ¬ Path.Beside base p) :
    (if base.isPrefixOf p then Path.ofNames [] (Path.wayNames (Path.names base) (Path.names p))
      else p) = p := by
  refine if_neg fun hprefix => ?_
  have hne : Path.names base ≠ [] := fun hnil => hnames (hnil ▸ List.nil_prefix)
  rcases Path.isPrefix_or_beside h.base_no_up h.base_normal hne
    (List.isPrefixOf_iff_prefix.mp hprefix) with hbelow | hbelow
  · exact hnames hbelow
  · exact hbeside hbelow

end Comparable

/-- **A path seen from a base.**  Let both be in normal form and start at the same place, and let
the path be written with slashes.

* If the names of the base are the first names of the path, the path is written as a way without
  `..`, which joined onto the base has the path as its normal form.
* Otherwise it stays as it is, unless it is beside the base: then its names go on from those of the
  base's parent with a longer name than the base's own, and `..` leads up to the parent.
* The dot as a base leaves every path as it is. -/
theorem pathWith_from_base {cwd : Text} (hcwd : Path.isAbsolute cwd = true) {u : Uri}
    (hspelling : u.spelling = {}) (hform : pathInForm {} u.path = u.path) {sep : Text}
    (hsep : sep = [] ∨ sep = ['/']) {b base : Text} (hb : b ≠ [])
    (hbase : Spelling.respell true ['/'] b = base) (hnormal : Path.normalize base = base)
    (hkind : Path.isAbsolute base = Path.isAbsolute u.path)
    (hdown : Path.isAbsolute u.path = false →
      (Path.components base).head? ≠ some Path.up ∧
        (Path.components u.path).head? ≠ some Path.up) :
    let seen := u.pathWith cwd sep b
    (Path.names base <+: Path.names u.path → u.path ≠ [] →
      Path.up ∉ Path.components seen ∧ Path.normalize (Path.join base seen) = u.path) ∧
    (¬ Path.names base <+: Path.names u.path → ¬ Path.Beside base u.path → seen = u.path) ∧
    (∀ front name more below, more ≠ [] → Path.names base = front ++ [name] →
      Path.names u.path = front ++ (name ++ more) :: below →
      seen = Text.joinWith ['/'] (Path.up :: (name ++ more) :: below)) ∧
    (base = Path.here → seen = u.path) := by
  intro seen
  have hunified : Spelling.respell true ['/'] u.path = u.path ∧
      (u.path ≠ [] → Path.normalize u.path = u.path) := by
    by_cases hp : u.path = []
    · rw [hp]
      exact ⟨rfl, fun hne => absurd rfl hne⟩
    · rw [pathInForm, if_neg hp] at hform
      have hnormalized : Path.normalize (Spelling.respell true ['/'] u.path) = u.path :=
        (Spelling.respell_normalize true u.path).symm.trans hform
      have hrespell : Spelling.respell true ['/'] u.path = u.path := by
        have hagain := Spelling.respell_normalize true u.path
        rwa [hnormalized] at hagain
      refine ⟨hrespell, fun _ => ?_⟩
      rwa [hrespell] at hnormalized
  have h : Comparable base u.path :=
    { base_ne_nil := by rwa [← hbase, Ne, Spelling.respell_eq_nil true (List.cons_ne_nil _ _)]
      base_unified := by rw [← hbase, Spelling.respell_respell (by decide)]
      base_normal := hnormal
      base_no_up := Path.up_not_mem_of_normal hnormal fun hrel => (hdown (hkind ▸ hrel)).1
      unified := hunified.1
      normal := hunified.2
      no_up := by
        by_cases hp : u.path = []
        · rw [hp]
          decide
        · exact Path.up_not_mem_of_normal (hunified.2 hp) fun hrel => (hdown hrel).2
      kind := hkind }
  have hseen := h.pathWith_eq hcwd hspelling rfl hb hbase hsep
  refine ⟨?_, fun hnames hbeside => hseen.trans (h.pathWith_of_elsewhere hnames hbeside), ?_, ?_⟩
  · rintro ⟨rest, hrest⟩ hp
    have hnames : ∀ n ∈ rest, Path.IsName n := fun n hn =>
      h.isName_of_mem (by rw [← hrest]; exact List.mem_append_right _ hn)
    have hway : seen = Path.ofNames [] rest := hseen.trans (h.pathWith_of_prefix hp hrest.symm)
    refine ⟨?_, ?_⟩
    · rw [hway]
      by_cases hnil : rest = []
      · rw [hnil]
        decide
      · have hcomponents : Path.components (Path.ofNames [] rest) = rest :=
          Path.components_ofNames (fun n hn => (hnames n hn).isKept) [] hnil
        rw [hcomponents]
        exact fun hmem => (hnames _ hmem).ne_up rfl
    · rw [hway, Path.normalize_join_ofNames h.base_ne_nil h.base_no_up hnames, hrest]
      exact (h.eq_ofNames hp).symm
  · intro front name more below hmore hfront hnames
    have hp : u.path ≠ [] := by
      intro hp
      rw [hp] at hnames
      simp [Path.names, Text.pieces] at hnames
    exact hseen.trans (h.pathWith_of_beside hp hmore hfront hnames)
  · rintro rfl
    by_cases hp : u.path = []
    · exact hseen.trans (by rw [hp]; rfl)
    · have hself := h.eq_ofNames hp
      exact (hseen.trans (h.pathWith_of_prefix hp rfl)).trans hself.symm

/-- A file seen from its directory. -/
theorem pathWith_from_base_below :
    let u := parse {} ['/', 'a', '/', 'b', '.', 'c']
    Path.isAbsolute ['/', 'w'] = true ∧ pathInForm {} u.path = u.path ∧
      Path.normalize ['/', 'a'] = ['/', 'a'] ∧
      (Path.up ∉ Path.components (u.pathWith ['/', 'w'] [] ['/', 'a']) ∧
        Path.normalize (Path.join ['/', 'a'] (u.pathWith ['/', 'w'] [] ['/', 'a'])) = u.path) := by
  intro u
  have hcwd : Path.isAbsolute ['/', 'w'] = true := by decide
  have hform : pathInForm {} u.path = u.path := by decide
  have hnormal : Path.normalize ['/', 'a'] = ['/', 'a'] := by decide
  have hseen := pathWith_from_base hcwd (u := u) rfl hform (.inl rfl) (b := ['/', 'a'])
    (by decide) (by decide) hnormal (by decide) (by decide)
  exact ⟨hcwd, hform, hnormal, hseen.1 (by decide) (by decide)⟩

/-- The text of a path may start with the text of a base that it is not below. -/
theorem pathWith_beside_base :
    let u := parse {} ['/', 'a', 'b']
    u.path = ['/', 'a', 'b'] ∧ Path.normalize ['/', 'a'] = ['/', 'a'] ∧
      ¬ Path.components ['/', 'a'] <+: Path.components u.path ∧
      u.pathWith ['/'] [] ['/', 'a'] = ['.', '.', '/', 'a', 'b'] := by
  decide

end Uri

end StyleImport
