/-
Joins in any grouping.

A stylesheet may join some segments first and go on with the answer.  The answer is a normal form,
and a normal form may stand for its path wherever it is joined to something, so the grouping does
not show.

* `Query.joinPaths_append_joinPaths`, `Query.joinPaths_joinPaths_cons` — behind and in front;
* `Query.join_grouped` — the same about the answers to queries.
-/
import StyleImport.Proofs.Path.Joined
import StyleImport.Proofs.Stylesheet.Shown
import StyleImport.Query

namespace StyleImport

namespace Query

/-! ### Paths joined -/

/-- Nothing joined is like the empty path, which every path may be joined to. -/
theorem joinPaths_eq (ps : List Text) : joinPaths ps = Path.normalize (Path.joinAll [] ps) := by
  cases ps with
  | nil => decide
  | cons p ps => rw [Path.joinAll_cons, Path.join_nil, joinPaths]

/-- Joining one after the other comes to the normal form of one join. -/
theorem normalize_joinAll (p : Text) (qs : List Text) :
    Path.normalize (Path.joinAll p qs) = Path.normalize (Path.join p (Path.joinAll [] qs)) := by
  cases qs with
  | nil =>
    -- The empty path may put a slash behind `p`, which its normal form does not have.
    have hnone : Path.names [] = [] := by decide
    show Path.normalize p = Path.normalize (Path.join p [])
    rw [Path.normalize_join_of_relative p rfl, hnone, List.append_nil, Path.normalize_eq_names]
  | cons q qs => rw [Path.joinAll_cons, Path.joinAll_cons, Path.join_nil]

/-- The last segments may be joined first. -/
theorem joinPaths_append_joinPaths (ps qs : List Text) :
    joinPaths (ps ++ [joinPaths qs]) = joinPaths (ps ++ qs) := by
  have hone (q : Text) : Path.joinAll (Path.joinAll [] ps) [q] = Path.join (Path.joinAll [] ps) q :=
    rfl
  rw [joinPaths_eq (ps ++ _), joinPaths_eq (ps ++ qs), joinPaths_eq qs, Path.joinAll_append,
    Path.joinAll_append, hone, Path.normalize_join_normalize, ← normalize_joinAll]

/-- The first segments may be joined first. -/
theorem joinPaths_joinPaths_cons (ps qs : List Text) :
    joinPaths (joinPaths ps :: qs) = joinPaths (ps ++ qs) := by
  rw [joinPaths, normalize_joinAll, joinPaths_eq ps, Path.normalize_normalize_join,
    ← normalize_joinAll, ← Path.joinAll_append, ← joinPaths_eq]

/-! ### Answers -/

variable (c : QueryContext) (registered : Option Value)

/-- Strings are always joined. -/
theorem answer_join (segments : List (Text × Bool)) :
    answer c registered .join (segments.map fun (t, b) => .string t b)
      = .ok (.quoted (joinPaths (segments.map Prod.fst))) := by
  unfold answer
  rw [compute, Value.mapM_requireString_strings]
  rfl

/-- **Joins may be grouped in any way.**  Of two lists of strings, quoted or not, whatever paths
they are: the answer to the join of the second one may stand for it, and so may the answer to the
join of the first one.  A join of nothing adds nothing, and a join of one answer is that answer.
There always is an answer, a quoted string. -/
theorem join_grouped (front back : List (Text × Bool)) :
    let join := answer c registered .join
    let A := front.map fun (t, b) => Value.string t b
    let B := back.map fun (t, b) => Value.string t b
    (∃ p, join (A ++ B) = .ok (.quoted p)) ∧
      (do let joined ← join B; join (A ++ [joined])) = join (A ++ B) ∧
      (do let joined ← join A; join (joined :: B)) = join (A ++ B) ∧
      (do let joined ← join []; join (A ++ [joined])) = join A ∧
      (do let joined ← join A; join [joined]) = join A := by
  intro join A B
  -- With a quoted string in front or behind there are strings again.
  have hA : join A = .ok (.quoted (joinPaths (front.map Prod.fst))) :=
    answer_join c registered front
  have hB : join B = .ok (.quoted (joinPaths (back.map Prod.fst))) := answer_join c registered back
  have hAB : join (A ++ B)
      = .ok (.quoted (joinPaths (front.map Prod.fst ++ back.map Prod.fst))) := by
    simpa [A, B, join] using answer_join c registered (front ++ back)
  have hbehind (t : Text) :
      join (A ++ [.quoted t]) = .ok (.quoted (joinPaths (front.map Prod.fst ++ [t]))) := by
    simpa [A, join] using answer_join c registered (front ++ [(t, true)])
  have hbefore (t : Text) :
      join (.quoted t :: B) = .ok (.quoted (joinPaths (t :: back.map Prod.fst))) := by
    simpa [B, join] using answer_join c registered ((t, true) :: back)
  have hnothing : join [] = .ok (.quoted (joinPaths [])) := answer_join c registered []
  have halone (t : Text) : join [.quoted t] = .ok (.quoted (joinPaths [t])) :=
    answer_join c registered [(t, true)]
  refine ⟨⟨_, hAB⟩, ?_, ?_, ?_, ?_⟩
  · rw [hB, hAB, ← joinPaths_append_joinPaths]
    exact hbehind _
  · rw [hA, hAB, ← joinPaths_joinPaths_cons]
    exact hbefore _
  · rw [hnothing, hA]
    refine (hbehind _).trans ?_
    rw [joinPaths_append_joinPaths, List.append_nil]
  · rw [hA]
    refine (halone _).trans ?_
    rw [joinPaths_joinPaths_cons, List.append_nil]

end Query

end StyleImport
