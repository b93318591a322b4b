/-
Paths joined, and their normal forms.

Joining is associative.  What a normal form forgets about a path does not show in what is joined to
it, in front or behind: a relative path adds its names to those in front of it, and reducing some of
the names first changes nothing.

* `Path.join_join`, `Path.joinAll_cons` — joins may be grouped;
* `Path.reduce_append_reduce`, `Path.reduce_reduce_append` — and so may reductions;
* `Path.normalize_join_normalize`, `Path.normalize_normalize_join` — so the two go together.
-/
import Mathlib.Data.List.Basic
import StyleImport.Proofs.Path.Way

namespace StyleImport

namespace Path

/-! ### Joining -/

theorem join_of_isAbsolute (p : Text) {q : Text} (hq : isAbsolute q = true) : join p q = q := by
  rw [join, if_pos hq]

theorem join_nil (q : Text) : join [] q = q := by
  unfold join
  split <;> simp

theorem isAbsolute_join_of_relative (p : Text) {q : Text} (hq : isAbsolute q = false) :
    isAbsolute (join p q) = isAbsolute p := by
  cases p with
  | nil =>
    rw [join_nil, hq]
    rfl
  | cons c cs =>
    rcases join_cases (c :: cs) hq with ⟨-, hjoin⟩ | hjoin <;> rw [hjoin]
    · exact isAbsolute_append_of_ne_nil (List.cons_ne_nil c cs) q
    · exact isAbsolute_append_of_ne_nil (List.cons_ne_nil c cs) _

theorem anchor_of_relative {p : Text} (h : isAbsolute p = false) : anchor p = [] :=
  (anchor_cases p).elim And.right fun habsolute => by simp [h] at habsolute

theorem anchor_join_of_relative (p : Text) {q : Text} (hq : isAbsolute q = false) :
    anchor (join p q) = anchor p := by
  cases hp : isAbsolute p with
  | true => exact anchor_join hp hq
  | false =>
    have hjoin : isAbsolute (join p q) = false := by rw [isAbsolute_join_of_relative p hq, hp]
    rw [anchor_of_relative hjoin, anchor_of_relative hp]

/-- What is written between a path and a relative one that is joined to it. -/
def joint (p : Text) : Text := if p = [] ∨ p.getLast? = some '/' then [] else ['/']

theorem join_of_relative (p : Text) {q : Text} (hq : isAbsolute q = false) :
    join p q = p ++ (joint p ++ q) := by
  unfold join joint
  rw [if_neg (by simp [hq])]
  split <;> simp_all

/-- Behind what is joined by a joint no other one is needed. -/
theorem joint_append_joint (p : Text) : joint (p ++ joint p) = [] := by
  by_cases h : p = [] ∨ p.getLast? = some '/'
  · have hnone : joint p = [] := if_pos h
    rw [hnone, List.append_nil, hnone]
  · have hslash : joint p = ['/'] := if_neg h
    rw [hslash]
    simp [joint]

theorem joint_append_of_ne_nil (p : Text) {q : Text} (hq : q ≠ []) : joint (p ++ q) = joint q := by
  simp [joint, hq, List.getLast?_append_of_ne_nil p hq]

/-- Joins may be grouped. -/
theorem join_join (p q r : Text) : join (join p q) r = join p (join q r) := by
  cases hr : isAbsolute r with
  | true => rw [join_of_isAbsolute _ hr, join_of_isAbsolute q hr, join_of_isAbsolute p hr]
  | false =>
    have hjoin : isAbsolute (join q r) = isAbsolute q := isAbsolute_join_of_relative q hr
    cases hq : isAbsolute q with
    | true => rw [join_of_isAbsolute p hq, join_of_isAbsolute p (hjoin.trans hq)]
    | false =>
      have hjoint : joint p ++ (q ++ joint (p ++ (joint p ++ q))) = joint p ++ (q ++ joint q) := by
        by_cases hempty : q = []
        · subst hempty
          rw [List.append_nil, joint_append_joint]
          rfl
        · rw [← List.append_assoc p, joint_append_of_ne_nil _ hempty]
      rw [join_of_relative p (hjoin.trans hq), join_of_relative _ hr, join_of_relative q hr,
        join_of_relative p hq]
      calc p ++ (joint p ++ q) ++ (joint (p ++ (joint p ++ q)) ++ r)
          = p ++ (joint p ++ (q ++ joint (p ++ (joint p ++ q))) ++ r) := by
            simp only [List.append_assoc]
        _ = p ++ (joint p ++ (q ++ (joint q ++ r))) := by
            rw [hjoint]
            simp only [List.append_assoc]

instance : Std.Associative join := ⟨join_join⟩

/-- Segments joined to a path are joined to each other first, or one after the other. -/
theorem joinAll_cons (p q : Text) (qs : List Text) : joinAll p (q :: qs) = join p (joinAll q qs) :=
  List.foldl_assoc

theorem joinAll_append (p : Text) (qs rs : List Text) :
    joinAll p (qs ++ rs) = joinAll (joinAll p qs) rs :=
  List.foldl_append

/-! ### Reducing some of the names first -/

/-- A stack that starts with the names of another one, before and after one more name. -/
theorem foldl_pushName_pushName (absolute : Bool) (below : List Text) {stack : List Text}
    (h : Stacked false stack) {name : Text} (hname : '/' ∉ name) :
    (pushName false stack name).reverse.foldl (pushName absolute) below
      = pushName absolute (stack.reverse.foldl (pushName absolute) below) name := by
  by_cases hdot : name = [] ∨ name = here
  · simp [pushName, hdot]
  · rw [not_or] at hdot
    by_cases hup : name = up
    · subst hup
      -- A way up takes away the name before it on either stack, or stays to be pushed later.
      obtain ⟨k, rest, rfl, hrest, -⟩ := h
      cases rest with
      | nil =>
        rw [List.nil_append, pushName_up_of_ups, List.replicate_succ, List.reverse_cons,
          List.foldl_append]
        rfl
      | cons n ns =>
        have hn : IsName n := hrest n List.mem_cons_self
        rw [List.cons_append, pushName_up_of_isName false hn, List.reverse_cons, List.foldl_append,
          List.foldl_cons, List.foldl_nil, pushName_of_isName absolute hn,
          pushName_up_of_isName absolute hn]
    · have hproper : IsName name := ⟨hdot.1, hdot.2, hup, hname⟩
      rw [pushName_of_isName false hproper, List.reverse_cons, List.foldl_append]
      rfl

/-- The names of a relative path may be reduced before they go behind others. -/
theorem reduce_append_reduce (absolute : Bool) (ms : List Text) {ns : List Text}
    (hns : ∀ n ∈ ns, '/' ∉ n) :
    reduce absolute (ms ++ reduce false ns) = reduce absolute (ms ++ ns) := by
  have hfold : ∀ (ns stack below : List Text), (∀ n ∈ ns, '/' ∉ n) → Stacked false stack →
      (ns.foldl (pushName false) stack).reverse.foldl (pushName absolute) below
        = ns.foldl (pushName absolute) (stack.reverse.foldl (pushName absolute) below) := by
    intro ns
    induction ns with
    | nil => exact fun _ _ _ _ => rfl
    | cons n ns ih =>
      intro stack below hns h
      have hn : '/' ∉ n := hns n List.mem_cons_self
      rw [List.foldl_cons, List.foldl_cons, ← foldl_pushName_pushName absolute below h hn]
      exact ih _ below (fun m hm => hns m (List.mem_cons_of_mem _ hm)) (stacked_pushName h hn)
  unfold reduce
  rw [List.foldl_append, List.foldl_append,
    hfold ns [] _ hns ⟨0, [], rfl, by simp, fun _ => rfl⟩]
  rfl

/-- The names in front may be reduced before others follow. -/
theorem reduce_reduce_append (absolute : Bool) {ms : List Text} (hms : ∀ m ∈ ms, '/' ∉ m)
    (ns : List Text) : reduce absolute (reduce absolute ms ++ ns) = reduce absolute (ms ++ ns) := by
  have hsame :
      (reduce absolute ms).foldl (pushName absolute) [] = ms.foldl (pushName absolute) [] :=
    List.reverse_injective (reduce_of_reduced (reduced_reduce absolute hms))
  unfold reduce at hsame ⊢
  rw [List.foldl_append, List.foldl_append, hsame]

/-! ### Normal forms -/

theorem no_slash_of_mem_names (p : Text) : ∀ n ∈ names p, '/' ∉ n :=
  fun _ hn => (isKept_of_mem_names hn).no_slash

/-- Empty names and dots are of no account. -/
theorem reduce_names (absolute : Bool) (p : Text) :
    reduce absolute (names p) = reduce absolute (Text.pieces '/' p) := by
  unfold reduce names
  congr 1
  generalize Text.pieces '/' p = ns
  have hfold : ∀ stack, (ns.filter fun n => n ≠ [] && n ≠ here).foldl (pushName absolute) stack
      = ns.foldl (pushName absolute) stack := by
    induction ns with
    | nil => exact fun _ => rfl
    | cons n ns ih =>
      intro stack
      by_cases hn : n = [] ∨ n = here
      · rw [List.filter_cons_of_neg (by rcases hn with rfl | rfl <;> decide), ih, List.foldl_cons]
        simp [pushName, hn]
      · rw [not_or] at hn
        rw [List.filter_cons_of_pos (by simp [hn.1, hn.2]), List.foldl_cons, List.foldl_cons, ih]
  exact hfold []

theorem normalize_eq_names (p : Text) :
    normalize p = ofNames (anchor p) (reduce (isAbsolute p) (names p)) := by
  rw [normalize_eq_ofNames, reduce_names]

theorem Reduced.isKept {absolute : Bool} {ns : List Text} (h : Reduced absolute ns) :
    ∀ n ∈ ns, IsKept n := by
  obtain ⟨k, rest, rfl, hrest, -⟩ := h
  intro n hn
  rcases List.mem_append.mp hn with hn | hn
  · rw [List.eq_of_mem_replicate hn]
    exact ⟨by decide, by decide, by decide⟩
  · exact (hrest n hn).isKept

theorem isKept_of_mem_reduce_names (p : Text) :
    ∀ n ∈ reduce (isAbsolute p) (names p), IsKept n :=
  (reduced_reduce (isAbsolute p) (no_slash_of_mem_names p)).isKept

theorem names_normalize (p : Text) : names (normalize p) = reduce (isAbsolute p) (names p) := by
  rw [normalize_eq_names, names_ofNames (isKept_of_mem_reduce_names p) p]

theorem anchor_normalize (p : Text) : anchor (normalize p) = anchor p := by
  rw [normalize_eq_names, anchor_ofNames (isKept_of_mem_reduce_names p) p]

/-- A relative path adds its names to those of the path in front. -/
theorem normalize_join_of_relative (p : Text) {q : Text} (hq : isAbsolute q = false) :
    normalize (join p q) = ofNames (anchor p) (reduce (isAbsolute p) (names p ++ names q)) := by
  rw [normalize_eq_names, anchor_join_of_relative p hq, isAbsolute_join_of_relative p hq,
    names_join hq]

/-- What is joined to a path may be brought into normal form first. -/
theorem normalize_join_normalize (p q : Text) :
    normalize (join p (normalize q)) = normalize (join p q) := by
  cases hq : isAbsolute q with
  | true =>
    rw [join_of_isAbsolute p hq, join_of_isAbsolute p ((isAbsolute_normalize q).trans hq),
      normalize_normalize]
  | false =>
    rw [normalize_join_of_relative p ((isAbsolute_normalize q).trans hq),
      normalize_join_of_relative p hq, names_normalize, hq,
      reduce_append_reduce _ _ (no_slash_of_mem_names q)]

/-- And so may the path that it is joined to. -/
theorem normalize_normalize_join (p q : Text) :
    normalize (join (normalize p) q) = normalize (join p q) := by
  cases hq : isAbsolute q with
  | true => rw [join_of_isAbsolute _ hq, join_of_isAbsolute _ hq]
  | false =>
    rw [normalize_join_of_relative _ hq, normalize_join_of_relative p hq, anchor_normalize,
      isAbsolute_normalize, names_normalize, reduce_reduce_append _ (no_slash_of_mem_names p)]

end Path

end StyleImport
