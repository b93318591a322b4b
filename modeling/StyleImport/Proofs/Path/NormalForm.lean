/-
Normal forms of paths.

The names of a normal form are the ways up that nothing is there to cancel, and then names proper;
an absolute path has no ways up at all (`Path.Reduced`).

* `Path.reduced_reduce` — reducing the names of a path leads there;
* `Path.reduce_of_reduced` — and changes nothing any more once it is reached;
* `Path.normalize_normalize`, `Path.absolute_absolute` — so a normal form is its own normal form.
-/
import Mathlib.Tactic.Common
import StyleImport.Path.Collapsed

namespace StyleImport

namespace Path

/-- A name that leads into a directory. -/
structure IsName (n : Text) : Prop where
  ne_nil : n ≠ []
  ne_here : n ≠ here
  ne_up : n ≠ up
  no_slash : '/' ∉ n

instance (n : Text) : Decidable (IsName n) :=
  decidable_of_iff (n ≠ [] ∧ n ≠ here ∧ n ≠ up ∧ '/' ∉ n)
    ⟨fun h => ⟨h.1, h.2.1, h.2.2.1, h.2.2.2⟩,
      fun h => ⟨h.ne_nil, h.ne_here, h.ne_up, h.no_slash⟩⟩

/-- Names that no step of the reduction changes. -/
def Reduced (absolute : Bool) (names : List Text) : Prop :=
  ∃ k rest, names = List.replicate k up ++ rest ∧ (∀ n ∈ rest, IsName n) ∧
    (absolute = true → k = 0)

theorem Reduced.no_slash {absolute : Bool} {names : List Text} (h : Reduced absolute names)
    {n : Text} (hn : n ∈ names) : '/' ∉ n := by
  obtain ⟨k, rest, rfl, hrest, _⟩ := h
  rcases List.mem_append.mp hn with hn | hn
  · rw [List.eq_of_mem_replicate hn]
    decide
  · exact (hrest n hn).no_slash

theorem Reduced.ne_nil {absolute : Bool} {names : List Text} (h : Reduced absolute names)
    {n : Text} (hn : n ∈ names) : n ≠ [] := by
  obtain ⟨k, rest, rfl, hrest, _⟩ := h
  rcases List.mem_append.mp hn with hn | hn
  · rw [List.eq_of_mem_replicate hn]
    decide
  · exact (hrest n hn).ne_nil

/-! ### Reducing -/

/-- A stack, with the last name first, that holds reduced names. -/
def Stacked (absolute : Bool) (stack : List Text) : Prop :=
  ∃ k rest, stack = rest ++ List.replicate k up ∧ (∀ n ∈ rest, IsName n) ∧
    (absolute = true → k = 0)

theorem Stacked.reverse {absolute : Bool} {stack : List Text} (h : Stacked absolute stack) :
    Reduced absolute stack.reverse := by
  obtain ⟨k, rest, rfl, hrest, hk⟩ := h
  refine ⟨k, rest.reverse, by simp, ?_, hk⟩
  intro n hn
  exact hrest n (List.mem_reverse.mp hn)

theorem pushName_of_isName (absolute : Bool) {n : Text} (h : IsName n) (stack : List Text) :
    pushName absolute stack n = n :: stack := by
  simp [pushName, h.ne_nil, h.ne_here, h.ne_up]

/-- A way up in front of which there are only ways up stays. -/
theorem pushName_up_of_ups (k : Nat) :
    pushName false (List.replicate k up) up = List.replicate (k + 1) up := by
  cases k with
  | zero => decide
  | succ k => simp [pushName, List.replicate_succ, up, here]

/-- A way up takes a name proper away. -/
theorem pushName_up_of_isName (absolute : Bool) {n : Text} (h : IsName n) (stack : List Text) :
    pushName absolute (n :: stack) up = stack := by
  have hhead : n ≠ up := h.ne_up
  simp [pushName, hhead, show up ≠ [] by decide, show up ≠ here by decide]

/-- One more name keeps the names on the stack reduced. -/
theorem stacked_pushName {absolute : Bool} {stack : List Text} {name : Text}
    (h : Stacked absolute stack) (hname : '/' ∉ name) :
    Stacked absolute (pushName absolute stack name) := by
  -- Only a way up looks at the stack: it takes a name proper away, stays on other ways up, and is
  -- dropped at the root.
  by_cases hdot : name = [] ∨ name = here
  · have hsame : pushName absolute stack name = stack := by
      simp [pushName, hdot]
    rw [hsame]
    exact h
  · rw [not_or] at hdot
    obtain ⟨k, rest, rfl, hrest, hk⟩ := h
    by_cases hup : name = up
    · subst hup
      cases rest with
      | nil =>
        cases absolute with
        | true =>
          rw [hk rfl]
          exact ⟨0, [], by decide, by simp, fun _ => rfl⟩
        | false =>
          exact ⟨k + 1, [], by simpa using pushName_up_of_ups k, by simp, by simp⟩
      | cons n ns =>
        have hpop := pushName_up_of_isName absolute (hrest n List.mem_cons_self)
          (ns ++ List.replicate k up)
        exact ⟨k, ns, hpop, fun m hm => hrest m (List.mem_cons_of_mem _ hm), hk⟩
    · have hproper : IsName name := ⟨hdot.1, hdot.2, hup, hname⟩
      refine ⟨k, name :: rest, pushName_of_isName absolute hproper _, ?_, hk⟩
      intro m hm
      rcases List.mem_cons.mp hm with rfl | hm
      · exact hproper
      · exact hrest m hm

/-- Reducing leads to reduced names. -/
theorem reduced_reduce (absolute : Bool) {names : List Text} (hnames : ∀ n ∈ names, '/' ∉ n) :
    Reduced absolute (reduce absolute names) := by
  -- The induction is on the names that are left, so the stack below them is general.
  have hfold : ∀ (ns stack : List Text), (∀ n ∈ ns, '/' ∉ n) → Stacked absolute stack →
      Stacked absolute (ns.foldl (pushName absolute) stack) := by
    intro ns
    induction ns with
    | nil => exact fun _ _ h => h
    | cons n ns ih =>
      intro stack hns h
      exact ih _ (fun m hm => hns m (List.mem_cons_of_mem _ hm))
        (stacked_pushName h (hns n List.mem_cons_self))
  exact (hfold names [] hnames ⟨0, [], rfl, by simp, fun _ => rfl⟩).reverse

/-- Names proper go on the stack one after the other. -/
theorem foldl_pushName_names (absolute : Bool) {names : List Text} (h : ∀ n ∈ names, IsName n)
    (stack : List Text) :
    names.foldl (pushName absolute) stack = names.reverse ++ stack := by
  induction names generalizing stack with
  | nil => rfl
  | cons n ns ih =>
    rw [List.foldl_cons, pushName_of_isName absolute (h n List.mem_cons_self),
      ih fun m hm => h m (List.mem_cons_of_mem _ hm)]
    simp

/-- Ways up at the front of a relative path stay. -/
theorem foldl_pushName_ups (k j : Nat) :
    (List.replicate k up).foldl (pushName false) (List.replicate j up)
      = List.replicate (k + j) up := by
  induction k generalizing j with
  | zero => simp
  | succ k ih =>
    rw [List.replicate_succ, List.foldl_cons, pushName_up_of_ups, ih]
    congr 1
    omega

/-- Reduced names are reduced to themselves. -/
theorem reduce_of_reduced {absolute : Bool} {names : List Text} (h : Reduced absolute names) :
    reduce absolute names = names := by
  obtain ⟨k, rest, rfl, hrest, hk⟩ := h
  unfold reduce
  -- The ways up go on an empty stack, where nothing is there for them to take away.
  rw [List.foldl_append, foldl_pushName_names absolute hrest]
  cases absolute with
  | true =>
    rw [hk rfl]
    simp
  | false =>
    rw [show ([] : List Text) = List.replicate 0 up from rfl, foldl_pushName_ups]
    simp

/-! ### Normal forms -/

theorem normalize_eq_ofNames (p : Text) :
    normalize p = ofNames (anchor p) (reduce (isAbsolute p) (Text.pieces '/' p)) := by
  unfold normalize ofNames
  dsimp only
  split <;> simp_all

/-- Names put together start with no slash. -/
theorem head?_joinWith_ne {names : List Text} (hne : ∀ n ∈ names, n ≠ [])
    (hslash : ∀ n ∈ names, '/' ∉ n) : (Text.joinWith ['/'] names).head? ≠ some '/' := by
  cases names with
  | nil => simp [Text.joinWith, List.intercalate]
  | cons n ns =>
    cases n with
    | nil => exact absurd rfl (hne [] List.mem_cons_self)
    | cons c cs =>
      have hc : '/' ∉ c :: cs := hslash _ List.mem_cons_self
      rw [List.mem_cons, not_or] at hc
      have hhead : (Text.joinWith ['/'] ((c :: cs) :: ns)).head? = some c := by
        cases ns <;> simp [Text.joinWith, List.intercalate]
      rw [hhead, Ne, Option.some.injEq]
      exact Ne.symm hc.1

/-- The slashes in front of a path are not, one or two. -/
theorem anchor_cases (p : Text) :
    (isAbsolute p = false ∧ anchor p = []) ∨
      (isAbsolute p = true ∧ (anchor p = ['/'] ∨ anchor p = ['/', '/'])) := by
  unfold isAbsolute anchor
  split <;> split <;> simp_all

theorem isAbsolute_append {t : Text} (ht : t.head? ≠ some '/') (p : Text) :
    isAbsolute (anchor p ++ t) = isAbsolute p := by
  rcases anchor_cases p with ⟨hp, ha⟩ | ⟨hp, ha | ha⟩
  · rw [ha, hp]
    cases t with
    | nil => rfl
    | cons c cs =>
      have hc : c ≠ '/' := by simpa using ht
      simp [isAbsolute, hc]
  · rw [ha, hp]
    rfl
  · rw [ha, hp]
    rfl

theorem anchor_append {t : Text} (ht : t.head? ≠ some '/') (p : Text) :
    anchor (anchor p ++ t) = anchor p := by
  cases t with
  | nil => rcases anchor_cases p with ⟨_, ha⟩ | ⟨_, ha | ha⟩ <;> rw [ha] <;> rfl
  | cons c cs =>
    have hc : c ≠ '/' := by simpa using ht
    rcases anchor_cases p with ⟨_, ha⟩ | ⟨_, ha | ha⟩ <;> rw [ha] <;> simp [anchor, hc]

/-- Empty names change nothing. -/
theorem reduce_nil_cons (absolute : Bool) (names : List Text) :
    reduce absolute ([] :: names) = reduce absolute names := by
  simp [reduce, pushName]

theorem reduce_pieces_slash_cons (absolute : Bool) (t : Text) :
    reduce absolute (Text.pieces '/' ('/' :: t)) = reduce absolute (Text.pieces '/' t) := by
  rw [Text.pieces, if_pos rfl, reduce_nil_cons]

/-- Reduced names put together are reduced to themselves, whatever slashes a normal form has in
front. -/
theorem reduce_pieces_append {absolute : Bool} {names : List Text} (h : Reduced absolute names)
    (p : Text) :
    reduce absolute (Text.pieces '/' (anchor p ++ Text.joinWith ['/'] names)) = names := by
  have hbare : reduce absolute (Text.pieces '/' (Text.joinWith ['/'] names)) = names := by
    cases hnames : names with
    | nil => cases absolute <;> decide
    | cons n ns =>
      rw [← hnames, Text.pieces_joinWith (by simp [hnames]) fun m hm => h.no_slash hm]
      exact reduce_of_reduced h
  rcases anchor_cases p with ⟨_, ha⟩ | ⟨_, ha | ha⟩ <;> rw [ha]
  · exact hbare
  · exact (reduce_pieces_slash_cons absolute _).trans hbare
  · exact (reduce_pieces_slash_cons absolute _).trans
      ((reduce_pieces_slash_cons absolute _).trans hbare)

/-- A normal form is its own normal form. -/
theorem normalize_normalize (p : Text) : normalize (normalize p) = normalize p := by
  have hred := reduced_reduce (isAbsolute p) fun n (hn : n ∈ Text.pieces '/' p) =>
    Text.not_mem_of_mem_pieces hn
  set names := reduce (isAbsolute p) (Text.pieces '/' p) with hnames
  have hhead := head?_joinWith_ne (fun n hn => hred.ne_nil hn) fun n hn => hred.no_slash hn
  rw [normalize_eq_ofNames p, ← hnames]
  unfold ofNames
  -- A path that comes to nothing is a dot; from any other, its slashes and its names are found
  -- again.
  split
  · rename_i hq
    rfl
  · rename_i hq
    rw [normalize_eq_ofNames, anchor_append hhead, isAbsolute_append hhead,
      reduce_pieces_append hred]
    unfold ofNames
    split
    · rename_i hq'
      exact absurd hq' hq
    · rfl

theorem isAbsolute_normalize (p : Text) : isAbsolute (normalize p) = isAbsolute p := by
  have hred := reduced_reduce (isAbsolute p) fun n (hn : n ∈ Text.pieces '/' p) =>
    Text.not_mem_of_mem_pieces hn
  have hhead := head?_joinWith_ne (fun n hn => hred.ne_nil hn) fun n hn => hred.no_slash hn
  rw [normalize_eq_ofNames]
  unfold ofNames
  split
  · rename_i hq
    rcases anchor_cases p with ⟨hp, ha⟩ | ⟨_, ha | ha⟩
    · rw [hp]
      rfl
    · simp [ha] at hq
    · simp [ha] at hq
  · exact isAbsolute_append hhead p

theorem eq_cons_of_isAbsolute {p : Text} (h : isAbsolute p = true) : ∃ cs, p = '/' :: cs := by
  unfold isAbsolute at h
  split at h
  · exact ⟨_, rfl⟩
  · exact absurd h (by simp)

theorem isAbsolute_join {cwd : Text} (hcwd : isAbsolute cwd = true) (p : Text) :
    isAbsolute (join cwd p) = true := by
  obtain ⟨cs, rfl⟩ := eq_cons_of_isAbsolute hcwd
  unfold join
  split
  · assumption
  · split <;> rfl

/-- Seen from an absolute working directory, every path is absolute. -/
theorem isAbsolute_absolute {cwd : Text} (hcwd : isAbsolute cwd = true) (p : Text) :
    isAbsolute (absolute cwd p) = true := by
  unfold absolute
  rw [isAbsolute_normalize]
  split
  · assumption
  · exact isAbsolute_join hcwd p

/-- An absolute normal form is what it looks like from anywhere. -/
theorem absolute_absolute {cwd : Text} (hcwd : isAbsolute cwd = true) (p : Text) :
    absolute cwd (absolute cwd p) = absolute cwd p := by
  rw [absolute, if_pos (isAbsolute_absolute hcwd p)]
  unfold absolute
  rw [normalize_normalize]

end Path

end StyleImport
