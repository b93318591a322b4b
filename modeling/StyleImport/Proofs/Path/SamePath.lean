/-
Identifiers that have the same path.

* `Uri.pathOf_append_suffix` — what follows a query or a fragment mark is no part of the path;
* `Uri.pathOf_respelled` — where separators are unified, backslashes may stand for slashes;
* `Uri.pathOf_slash_end` — a slash at the end of a name changes nothing.
-/
import Mathlib.Data.List.Forall2
import StyleImport.Proofs.Path.Spelled

namespace StyleImport

/-! ### Slashes at the end -/

namespace Path

theorem anchor_slash_end {p : Text} (hne : p ≠ []) (hlast : p.getLast? ≠ some '/') :
    anchor (p ++ ['/']) = anchor p := by
  refine anchor_append_of_not_slash ⟨p.getLast hne, List.getLast_mem hne, fun h => hlast ?_⟩ ['/']
  rw [List.getLast?_eq_some_getLast hne, h]

theorem normalize_slash_end {p : Text} (hne : p ≠ []) (hlast : p.getLast? ≠ some '/') :
    normalize (p ++ ['/']) = normalize p := by
  have hpieces : Text.pieces '/' (p ++ ['/']) = Text.pieces '/' p ++ [[]] :=
    Text.pieces_append_sep '/' p []
  have hreduce : ∀ absolute, reduce absolute (Text.pieces '/' p ++ [[]])
      = reduce absolute (Text.pieces '/' p) := by
    intro absolute
    simp [reduce, List.foldl_append, pushName]
  rw [normalize_eq_ofNames, normalize_eq_ofNames, anchor_slash_end hne hlast,
    isAbsolute_append_of_ne_nil hne, hpieces, hreduce]

end Path

namespace Spelling

/-- A slash at the end goes on with a run that is there, or stands behind a name. -/
theorem unifyRuns_slash_end (inRun : Bool) (t : Text) :
    unifyRuns ['/'] inRun (t ++ ['/']) = unifyRuns ['/'] inRun t ∨
      unifyRuns ['/'] inRun (t ++ ['/']) = unifyRuns ['/'] inRun t ++ ['/'] ∧
        (unifyRuns ['/'] inRun t).getLast? ≠ some '/' ∧
        (inRun = true → unifyRuns ['/'] inRun t ≠ []) := by
  induction t generalizing inRun with
  | nil =>
    cases inRun with
    | true => exact .inl rfl
    | false => exact .inr ⟨rfl, by simp [unifyRuns], by simp⟩
  | cons c cs ih =>
    rw [List.cons_append, unifyRuns, unifyRuns]
    by_cases hc : isSeparator c = true
    · rw [if_pos hc, if_pos hc]
      rcases ih true with hsame | ⟨hmore, hlast, hne⟩
      · exact .inl (by rw [hsame])
      · refine .inr ⟨by rw [hmore, List.append_assoc], ?_, fun _ => ?_⟩
        · rwa [List.getLast?_append_of_ne_nil _ (hne rfl)]
        · exact List.append_ne_nil_of_right_ne_nil _ (hne rfl)
    · rw [if_neg hc, if_neg hc]
      rcases ih false with hsame | ⟨hmore, hlast, -⟩
      · exact .inl (by rw [hsame])
      · refine .inr ⟨by rw [hmore, List.cons_append], ?_, by simp⟩
        have hslash : c ≠ '/' := fun h => hc (by simp [isSeparator, h])
        rcases hrest : unifyRuns ['/'] false cs with _ | ⟨d, ds⟩
        · simpa using hslash
        · rw [hrest] at hlast
          rwa [List.getLast?_cons_cons]

/-- One text is the other with backslashes for some of its slashes. -/
def Respells (s t : Text) : Prop := List.Forall₂ (fun c d => d = c ∨ c = '/' ∧ d = '\\') s t

theorem unifyRuns_respelled {s t : Text} (h : Respells s t) (inRun : Bool) :
    unifyRuns ['/'] inRun s = unifyRuns ['/'] inRun t := by
  induction h generalizing inRun with
  | nil => rfl
  | cons hc _ ih =>
    rcases hc with rfl | ⟨rfl, rfl⟩
    · simp only [unifyRuns, ih]
    · simp [unifyRuns, isSeparator, ih]

end Spelling

namespace Uri

/-! ### The same path -/

/-- A query or a fragment, with the mark in front. -/
def IsSuffix (suffix : Text) : Prop := ∃ c cs, suffix = c :: cs ∧ isSuffixMark c = true

theorem written_append_suffix (t : Text) {suffix : Text} (h : IsSuffix suffix) :
    written (t ++ suffix) = written t := by
  obtain ⟨c, cs, rfl, hc⟩ := h
  induction t with
  | nil => simp [written, hc]
  | cons d ds ih => rw [List.cons_append, written_cons, written_cons, ih]

/-- A query or a fragment is no part of the path. -/
theorem pathOf_append_suffix (unified : Bool) (t : Text) {suffix : Text} (h : IsSuffix suffix) :
    pathOf unified (t ++ suffix) = pathOf unified t := by
  rw [pathOf_eq, pathOf_eq, spelled, spelled, written_append_suffix t h]

theorem written_respelled {s t : Text} (h : Spelling.Respells s t) :
    Spelling.Respells (written s) (written t) := by
  induction h with
  | nil => exact .nil
  | cons hc _ ih =>
    rw [written_cons, written_cons]
    rcases hc with rfl | ⟨rfl, rfl⟩
    · split
      · exact .nil
      · exact .cons (.inl rfl) ih
    · exact .cons (.inr ⟨rfl, rfl⟩) ih

/-- Where separators are unified, backslashes for slashes make no difference to the path. -/
theorem pathOf_respelled {s t : Text} (h : Spelling.Respells s t) :
    pathOf true s = pathOf true t := by
  have hspelled : spelled true s = spelled true t :=
    Spelling.unifyRuns_respelled (written_respelled h) false
  rw [pathOf_eq, pathOf_eq, hspelled]

/-- A slash behind a text that has none in it changes nothing. -/
theorem pathOf_slash_end (unified : Bool) {t : Text} (hne : t ≠ []) (hslash : '/' ∉ t) :
    pathOf unified (t ++ ['/']) = pathOf unified t := by
  have hspelled : spelled unified (t ++ ['/']) = spelled unified t ∨
      spelled unified (t ++ ['/']) = spelled unified t ++ ['/'] ∧ spelled unified t ≠ [] ∧
        (spelled unified t).getLast? ≠ some '/' := by
    unfold spelled
    rw [written_append_slash]
    split
    · exact .inl rfl
    · rename_i hmark
      have hwritten : written t = t := written_eq_self fun c hc => by
        simpa using fun h => hmark (List.any_eq_true.mpr ⟨c, hc, h⟩)
      rw [hwritten]
      cases unified with
      | false =>
        exact .inr ⟨rfl, hne, fun hlast => hslash (List.mem_of_getLast? hlast)⟩
      | true =>
        refine (Spelling.unifyRuns_slash_end false t).imp id ?_
        rintro ⟨hmore, hlast, -⟩
        exact ⟨hmore, mt (Spelling.respell_eq_nil true (List.cons_ne_nil _ _)).mp hne, hlast⟩
  rw [pathOf_eq, pathOf_eq]
  rcases hspelled with hsame | ⟨hmore, hne', hlast⟩
  · rw [hsame]
  · rw [hmore, if_neg hne', if_neg (by simp), Path.normalize_slash_end hne' hlast]

end Uri

end StyleImport
