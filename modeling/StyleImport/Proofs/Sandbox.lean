/-
The sandbox compares names.

* `Path.dropShared_eq_nil` — nothing is left of a list of names if it starts the other one;
* `Sandbox.isBelow_iff` — a path is admitted below a root if its names start with those of the root;
* `Sandbox.permits_iff` — and into the sandbox if it is below one of the roots;
* `Sandbox.admits_exactly_below_roots` — so what is admitted depends on the names of normal forms
  alone, however paths and roots are spelled.
-/
import StyleImport.Proofs.Path.Places
import StyleImport.Sandbox

namespace StyleImport

namespace Path

/-- What two lists share comes off both. -/
theorem exists_of_dropShared (as bs : List Text) :
    ∃ shared, as = shared ++ (dropShared as bs).1 ∧ bs = shared ++ (dropShared as bs).2 := by
  induction as generalizing bs with
  | nil => exact ⟨[], by simp [dropShared], by simp [dropShared]⟩
  | cons a as ih =>
    cases bs with
    | nil => exact ⟨[], by simp [dropShared], by simp [dropShared]⟩
    | cons b bs =>
      by_cases hab : a = b
      · subst hab
        obtain ⟨shared, has, hbs⟩ := ih bs
        refine ⟨a :: shared, ?_, ?_⟩
        · simpa [dropShared] using has
        · simpa [dropShared] using hbs
      · exact ⟨[], by simp [dropShared, hab], by simp [dropShared, hab]⟩

/-- Nothing is left of a list that starts the other one. -/
theorem dropShared_eq_nil {as bs : List Text} : (dropShared as bs).1 = [] ↔ as <+: bs := by
  constructor
  · intro hnil
    obtain ⟨shared, has, hbs⟩ := exists_of_dropShared as bs
    rw [hnil, List.append_nil] at has
    rw [hbs, ← has]
    exact List.prefix_append _ _
  · rintro ⟨rest, rfl⟩
    induction as with
    | nil => simp [dropShared]
    | cons a as ih => simpa [dropShared] using ih

/-- The first name of a text is `..` if that is the text or followed by a slash. -/
theorem head?_pieces_eq_up {t : Text} :
    (Text.pieces '/' t).head? = some up ↔ t = up ∨ (up ++ ['/']).isPrefixOf t = true := by
  have hslash : '/' ∉ up := by decide
  constructor
  · intro hhead
    obtain ⟨rest, hpieces⟩ := List.head?_eq_some_iff.mp hhead
    have ht := Text.joinWith_pieces '/' t
    rw [hpieces] at ht
    by_cases hrest : rest = []
    · rw [hrest, Text.joinWith_singleton] at ht
      exact .inl ht.symm
    · rw [Text.joinWith_cons up hrest] at ht
      exact .inr (List.isPrefixOf_iff_prefix.mpr ⟨_, by simpa using ht⟩)
  · rintro (rfl | h)
    · decide
    · obtain ⟨rest, rfl⟩ := List.isPrefixOf_iff_prefix.mp h
      rw [List.append_assoc, List.singleton_append, Text.pieces_append_cons hslash, List.head?_cons]

/-- The way to a path starts with the first of its names; a way without names is the dot. -/
theorem head?_pieces_relative {cwd : Text} (hcwd : isAbsolute cwd = true) (p start : Text) :
    (Text.pieces '/' (relative cwd p start)).head?
      = some ((wayNames (components (absolute cwd start)) (components (absolute cwd p))).head?.getD
          here) := by
  unfold relative
  have hslash : ∀ n ∈ wayNames (components (absolute cwd start)) (components (absolute cwd p)),
      '/' ∉ n := by
    obtain ⟨shared, -, hdown⟩ :=
      exists_of_dropShared (components (absolute cwd start)) (components (absolute cwd p))
    intro n hn
    rcases List.mem_append.mp hn with hn | hn
    · rw [List.eq_of_mem_replicate hn]
      decide
    · exact (isName_of_mem_components_absolute hcwd p n (by rw [hdown]; simp [hn])).no_slash
  split
  · rename_i hnil
    rw [hnil]
    decide
  · rename_i hne
    rw [Text.pieces_joinWith hne hslash]
    obtain ⟨n, ns, hway⟩ := List.exists_cons_of_ne_nil hne
    rw [hway]
    rfl

/-- The names of the normal form of a path that is seen from the working directory. -/
def normalNames (cwd p : Text) : List Text := components (absolute cwd p)

/-- No place is below its sibling, though the sibling's name may be how its own name starts. -/
theorem not_prefix_of_longer_name {dir below : List Text} {name more : Text} (hmore : more ≠ []) :
    ¬ dir ++ [name] <+: dir ++ (name ++ more) :: below := by
  rw [List.prefix_append_right_inj, List.cons_prefix_cons]
  rintro ⟨hname, -⟩
  exact hmore (by simpa using hname)

end Path

namespace Sandbox

/-- The way to a path does not start upwards if its names start with those of the root. -/
theorem isBelow_iff {cwd : Text} (hcwd : Path.isAbsolute cwd = true) {p root : Text} :
    isBelow cwd p root = true ↔
      Path.components (Path.absolute cwd root) <+: Path.components (Path.absolute cwd p) := by
  have hup : isBelow cwd p root = true ↔ (Text.pieces '/' (Path.relative cwd (Path.absolute cwd p)
      (Path.absolute cwd root))).head? ≠ some Path.up := by
    simp only [isBelow, ne_eq, Path.head?_pieces_eq_up, not_or, Bool.and_eq_true,
      decide_eq_true_eq, Bool.not_eq_true', Bool.not_eq_true]
  rw [hup, Path.head?_pieces_relative hcwd, Path.absolute_absolute hcwd,
    Path.absolute_absolute hcwd, ← Path.dropShared_eq_nil, Path.wayNames]
  obtain ⟨shared, -, hdown⟩ := Path.exists_of_dropShared
    (Path.components (Path.absolute cwd root)) (Path.components (Path.absolute cwd p))
  have hnames := Path.isName_of_mem_components_absolute hcwd p
  generalize Path.dropShared (Path.components (Path.absolute cwd root))
    (Path.components (Path.absolute cwd p)) = apart at hdown ⊢
  obtain ⟨_ | ⟨u, us⟩, downs⟩ := apart
  · -- The names that are left lead down.
    cases downs with
    | nil => simp [show Path.here ≠ Path.up by decide]
    | cons n ns =>
      have hn : Path.IsName n := hnames n (by rw [hdown]; simp)
      simpa using hn.ne_up
  · simp [List.replicate_succ]

theorem permits_iff {cwd : Text} (hcwd : Path.isAbsolute cwd = true) {paths : List Text}
    {p : Text} :
    permits cwd (.roots paths) p = true ↔ ∃ root ∈ paths,
      Path.components (Path.absolute cwd root) <+: Path.components (Path.absolute cwd p) := by
  rw [permits, List.any_eq_true]
  exact exists_congr fun root => and_congr_right fun _ => isBelow_iff hcwd

/-! ### Sandboxes of given roots -/

theorem mem_firstCopies {paths : List Text} {p : Text} : p ∈ firstCopies paths ↔ p ∈ paths := by
  have hfold : ∀ acc : List Text,
      p ∈ paths.foldl (fun acc q => if acc.contains q then acc else acc ++ [q]) acc ↔
        p ∈ acc ∨ p ∈ paths := by
    induction paths with
    | nil => simp
    | cons q paths ih =>
      intro acc
      rw [List.foldl_cons, ih, List.mem_cons]
      -- A copy that is left out is in the list already.
      by_cases hq : acc.contains q = true
      · rw [if_pos hq]
        have hmem : q ∈ acc := List.contains_iff_mem.mp hq
        constructor
        · rintro (h | h)
          · exact .inl h
          · exact .inr (.inr h)
        · rintro (h | rfl | h)
          · exact .inl h
          · exact .inl hmem
          · exact .inr h
      · rw [if_neg hq, List.mem_append, List.mem_singleton, or_assoc]
  rw [firstCopies, hfold]
  simp

/-- A root is as good as any other spelling of it. -/
theorem permits_ofRoots_iff {cwd : Text} (hcwd : Path.isAbsolute cwd = true) {roots : List Text}
    {p : Text} :
    permits cwd (ofRoots cwd roots) p = true ↔
      ∃ root ∈ roots, Path.normalNames cwd root <+: Path.normalNames cwd p := by
  rw [ofRoots, permits_iff hcwd]
  constructor
  · rintro ⟨q, hq, hbelow⟩
    obtain ⟨root, hroot, rfl⟩ := List.mem_map.mp (mem_firstCopies.mp hq)
    rw [Path.absolute_absolute hcwd] at hbelow
    exact ⟨root, hroot, hbelow⟩
  · rintro ⟨root, hroot, hbelow⟩
    refine ⟨Path.absolute cwd root, mem_firstCopies.mpr (List.mem_map_of_mem hroot), ?_⟩
    rw [Path.absolute_absolute hcwd]
    exact hbelow

/-- **The sandbox admits a path exactly if the names of a root are the first names of the path**,
both in normal form as seen from the working directory.  So

* other spellings of the path and of the roots with the same names are answered alike;
* a root's sibling is not admitted for having a name that goes on where the root's name ends, nor
  is anything below it;
* without roots nothing is admitted. -/
theorem admits_exactly_below_roots {cwd : Text} (hcwd : Path.isAbsolute cwd = true)
    (roots : List Text) (p : Text) :
    (permits cwd (ofRoots cwd roots) p = true ↔
      ∃ root ∈ roots, Path.normalNames cwd root <+: Path.normalNames cwd p) ∧
    (∀ roots' p',
      List.Forall₂ (fun r r' => Path.normalNames cwd r = Path.normalNames cwd r') roots roots' →
      Path.normalNames cwd p = Path.normalNames cwd p' →
      permits cwd (ofRoots cwd roots) p = permits cwd (ofRoots cwd roots') p') ∧
    (∀ root dir name more below, more ≠ [] → Path.normalNames cwd root = dir ++ [name] →
      Path.normalNames cwd p = dir ++ (name ++ more) :: below →
      permits cwd (ofRoots cwd [root]) p = false) ∧
    permits cwd (ofRoots cwd []) p = false := by
  refine ⟨permits_ofRoots_iff hcwd, ?_, ?_, ?_⟩
  · intro roots' p' hroots hp
    rw [Bool.eq_iff_iff, permits_ofRoots_iff hcwd, permits_ofRoots_iff hcwd, ← hp]
    induction hroots with
    | nil => simp
    | cons hroot _ ih => simp only [List.mem_cons, exists_eq_or_imp, hroot, ih]
  · intro root dir name more below hmore hroot hbelow
    rw [← Bool.not_eq_true, permits_ofRoots_iff hcwd]
    rintro ⟨root', hmem, hprefix⟩
    obtain rfl : root' = root := by simpa using hmem
    rw [hroot, hbelow] at hprefix
    exact Path.not_prefix_of_longer_name hmore hprefix
  · rw [← Bool.not_eq_true, permits_ofRoots_iff hcwd]
    simp

/-- A root spelled in a roundabout way admits a name with dots in front, and no sibling. -/
theorem admits_dotted_name_and_no_sibling :
    permits ['/', 'w'] (ofRoots ['/', 'w'] [['.', '.', '/', 's', '/', '/', '.', '/']])
        ['/', '/', 's', '/', '.', '.', 'x'] = true ∧
      permits ['/', 'w'] (ofRoots ['/', 'w'] [['.', '.', '/', 's', '/', '/', '.', '/']])
        ['/', 's', '2'] = false := by
  have hcwd : Path.isAbsolute ['/', 'w'] = true := by decide
  constructor
  · refine (admits_exactly_below_roots hcwd _ _).1.mpr ⟨_, List.mem_singleton_self _, ?_⟩
    decide
  · exact (admits_exactly_below_roots hcwd [] ['/', 's', '2']).2.2.1 _ [] ['s'] ['2'] []
      (by decide) (by decide) (by decide)

end Sandbox

end StyleImport
