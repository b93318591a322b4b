/-
The directory of a path.

* `Path.components_directory` — its names are those of the path, without the last one;
* `Path.directory_pathOf` — a path of names loses its last name;
* `Path.absolute_eq_pathOf` — a path that never goes up, seen from a directory.
-/
import Mathlib.Data.List.TakeWhile
import StyleImport.Disk.Lookup
import StyleImport.Proofs.Path.Places

namespace StyleImport

namespace Text

theorem cutLast_of_not_mem {sep : Char} {t : Text} (h : sep ∉ t) : cutLast sep t = none := by
  induction t with
  | nil => rfl
  | cons c cs ih =>
    rw [List.mem_cons, not_or] at h
    rw [cutLast, ih h.2]
    exact if_neg (Ne.symm h.1)

theorem cutLast_append {sep : Char} (before : Text) {after : Text} (h : sep ∉ after) :
    cutLast sep (before ++ sep :: after) = some (before, after) := by
  induction before with
  | nil =>
    rw [List.nil_append, cutLast, cutLast_of_not_mem h]
    exact if_pos rfl
  | cons c cs ih => rw [List.cons_append, cutLast, ih]

/-- What is dropped at the end of a text satisfies the predicate. -/
theorem dropEndWhile_append (p : Char → Bool) (t : Text) :
    ∃ rest, t = dropEndWhile p t ++ rest ∧ ∀ c ∈ rest, p c = true := by
  refine ⟨(t.reverse.takeWhile p).reverse, ?_, ?_⟩
  · rw [dropEndWhile, ← List.reverse_append, List.takeWhile_append_dropWhile, List.reverse_reverse]
  · intro c hc
    exact List.mem_takeWhile_imp (List.mem_reverse.mp hc)

end Text

namespace Path

/-! ### Names -/

theorem components_append_slashes (p : Text) {slashes : Text} (h : ∀ c ∈ slashes, c = '/') :
    components (p ++ slashes) = components p := by
  induction slashes generalizing p with
  | nil => rw [List.append_nil]
  | cons c cs ih =>
    obtain rfl : c = '/' := h c List.mem_cons_self
    have hcs : components cs = [] := by
      have hnil := ih [] fun d hd => h d (List.mem_cons_of_mem _ hd)
      exact hnil.trans (by decide)
    rw [components_append_slash, hcs, List.append_nil]

/-- The directory of a path has the names of the path up to the last slash. -/
theorem components_directory (before : Text) {last : Text} (h : '/' ∉ last) :
    components (directory (before ++ '/' :: last)) = components before := by
  rw [directory, splitLast, Text.cutLast_append before h]
  dsimp only
  split
  · exact components_append_slashes before (by simp)
  · obtain ⟨rest, hrest, hslashes⟩ :=
      Text.dropEndWhile_append (· = '/') (before ++ ['/'])
    have hfront := components_append_slashes (Text.dropEndWhile (· = '/') (before ++ ['/']))
      fun c hc => by simpa using hslashes c hc
    rw [← hfront, ← hrest]
    exact components_append_slashes before (by simp)

/-- A path without a slash has no directory. -/
theorem exists_of_directory_ne_nil {p : Text} (h : directory p ≠ []) :
    ∃ before last, p = before ++ '/' :: last ∧ '/' ∉ last := by
  rcases hcut : Text.cutLast '/' p with _ | ⟨before, last⟩
  · simp [directory, splitLast, hcut] at h
  · exact ⟨before, last, Text.eq_of_cutLast hcut, Text.not_mem_of_cutLast hcut⟩

/-- The directory of a relative path is relative. -/
theorem isAbsolute_directory {p : Text} (h : isAbsolute p = false) :
    isAbsolute (directory p) = false := by
  by_cases hne : directory p = []
  · rw [hne]
    rfl
  · obtain ⟨before, last, rfl, hlast⟩ := exists_of_directory_ne_nil hne
    obtain ⟨rest, hrest, -⟩ := Text.dropEndWhile_append (· = '/') (before ++ ['/'])
    rw [directory, splitLast, Text.cutLast_append before hlast] at hne ⊢
    dsimp only at hne ⊢
    split
    · rename_i hall
      rw [if_pos hall] at hne
      -- Slashes only would make the path absolute.
      exfalso
      cases before with
      | nil => simp [isAbsolute] at h
      | cons c cs =>
        obtain rfl : c = '/' := by simpa using List.all_eq_true.mp hall c (by simp)
        simp [isAbsolute] at h
    · rename_i hall
      rw [if_neg hall] at hne
      have hbefore : before ≠ [] := by
        rintro rfl
        exact hall (by simp)
      rw [← isAbsolute_append_of_ne_nil hne rest, ← hrest, isAbsolute_append_of_ne_nil hbefore,
        ← h, isAbsolute_append_of_ne_nil hbefore]

theorem names_eq_filter (p : Text) : names p = (components p).filter (· ≠ here) := by
  rw [components, List.filter_filter, names]
  congr 1
  funext n
  rw [Bool.and_comm]

/-- Names that never lead up, without those that lead nowhere. -/
theorem moveAll_of_no_up {p : Text} (h : up ∉ components p) (place : List Text) :
    moveAll place (components p) = place ++ names p := by
  rw [names_eq_filter]
  have hne : ∀ n ∈ components p, n ≠ [] := fun n hn => by simpa using (List.mem_filter.mp hn).2
  generalize components p = ns at h hne
  induction ns generalizing place with
  | nil => simp
  | cons n ns ih =>
    rw [List.mem_cons, not_or] at h
    have hrest (at_ : List Text) := ih at_ h.2 fun m hm => hne m (List.mem_cons_of_mem _ hm)
    by_cases hhere : n = here
    · subst hhere
      rw [moveAll_cons, move_here, hrest]
      simp
    · rw [moveAll_cons, move_of_ne place (hne n List.mem_cons_self) hhere (Ne.symm h.1), hrest]
      simp [hhere]

theorem mem_components_of_mem_names {p n : Text} (h : n ∈ names p) : n ∈ components p := by
  obtain ⟨hn, hne⟩ := List.mem_filter.mp h
  simp only [Bool.and_eq_true, decide_eq_true_eq] at hne
  exact List.mem_filter.mpr ⟨hn, by simpa using hne.1⟩

theorem isName_of_mem_names {p n : Text} (hup : up ∉ components p) (h : n ∈ names p) :
    IsName n := by
  have hmem := mem_components_of_mem_names h
  obtain ⟨hn, hne⟩ := List.mem_filter.mp h
  simp only [Bool.and_eq_true, decide_eq_true_eq] at hne
  exact ⟨hne.1, hne.2, fun hn => hup (hn ▸ hmem), no_slash_of_mem_components p n hmem⟩

/-! ### Paths of names -/

theorem components_pathOf {names : List Text} (h : ∀ n ∈ names, IsName n) :
    components (Disk.pathOf names) = names := by
  have hroot := components_anchor_append (fun n hn => (h n hn).ne_nil)
    (fun n hn => (h n hn).no_slash) ['/']
  exact hroot

theorem mem_pathOf {names : List Text} {c : Char} (h : c ∈ Disk.pathOf names) :
    c = '/' ∨ ∃ n ∈ names, c ∈ n :=
  (List.mem_cons.mp h).elim .inl mem_joinWith

theorem anchor_pathOf {names : List Text} (h : ∀ n ∈ names, IsName n) :
    anchor (Disk.pathOf names) = ['/'] := by
  cases names with
  | nil => decide
  | cons n ns =>
    have hn : IsName n := h n List.mem_cons_self
    obtain ⟨c, cs, rfl⟩ := List.exists_cons_of_ne_nil hn.ne_nil
    have hc : c ≠ '/' := fun hc => hn.no_slash (hc ▸ List.mem_cons_self)
    cases ns <;> simp [Disk.pathOf, Text.joinWith, List.intercalate, anchor, hc]

/-- A path that never goes up, seen from a directory. -/
theorem absolute_eq_pathOf {cwd : List Text} (hcwd : ∀ n ∈ cwd, IsName n) {p : Text}
    (hrel : isAbsolute p = false) (hup : up ∉ components p) :
    absolute (Disk.pathOf cwd) p = Disk.pathOf (cwd ++ names p) := by
  have hself : moveAll [] cwd = cwd := by rw [moveAll_of_isName hcwd, List.nil_append]
  rw [absolute_of_relative rfl hrel, anchor_pathOf hcwd, components_pathOf hcwd, moveAll_append,
    hself, moveAll_of_no_up hup]
  rfl

/-- A path of names loses its last name. -/
theorem directory_pathOf {names : List Text} {last : Text} (h : ∀ n ∈ names, IsName n)
    (hlast : '/' ∉ last) : directory (Disk.pathOf (names ++ [last])) = Disk.pathOf names := by
  rcases List.eq_nil_or_concat names with rfl | ⟨front, n, rfl⟩
  · have hroot : Disk.pathOf ([] ++ [last]) = [] ++ '/' :: last := by
      simp [Disk.pathOf, Text.joinWith, List.intercalate]
    rw [hroot, directory, splitLast, Text.cutLast_append [] hlast]
    rfl
  · -- The last of the other names ends with something that is no slash.
    rw [List.concat_eq_append] at h ⊢
    have hn : IsName n := h n (by simp)
    obtain ⟨m, c, rfl⟩ := (List.eq_nil_or_concat n).resolve_left hn.ne_nil
    rw [List.concat_eq_append] at h hn ⊢
    have hc : c ≠ '/' := fun hc => hn.no_slash (by simp [hc])
    obtain ⟨start, hstart⟩ : ∃ start, Disk.pathOf (front ++ [m ++ [c]]) = start ++ [c] := by
      by_cases hfront : front = []
      · exact ⟨'/' :: m, by simp [hfront, Disk.pathOf, Text.joinWith, List.intercalate]⟩
      · exact ⟨'/' :: (Text.joinWith ['/'] front ++ '/' :: m), by
          simp [Disk.pathOf, Text.joinWith_concat _ hfront]⟩
    have hsplit : Disk.pathOf ((front ++ [m ++ [c]]) ++ [last])
        = Disk.pathOf (front ++ [m ++ [c]]) ++ '/' :: last := by
      simp only [Disk.pathOf, List.cons_append]
      rw [Text.joinWith_concat last (by simp)]
    rw [hsplit, directory, splitLast, Text.cutLast_append _ hlast, hstart]
    simp [Text.dropEndWhile, hc]

end Path

end StyleImport
