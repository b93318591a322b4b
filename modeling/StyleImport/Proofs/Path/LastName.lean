/-
The last name of a path, and what is written behind it.

What is written behind the last name of a path, without a slash in it, is written behind the last
name of its normal form too, as long as both are names proper.

* `Path.components_append_last` — the names of a path whose last name goes on;
* `Path.normalize_last` — the last name of a normal form;
* `Path.extension_append` — the extension is what stands from the last dot on;
* `Uri.pathOf_append` — the path of an identifier whose last name goes on.
-/
import StyleImport.Proofs.Path.Directory
import StyleImport.Proofs.Path.Spelled

namespace StyleImport

namespace Text

/-- A text from the last occurrence of a character on; empty if there is none. -/
def fromLast (sep : Char) (t : Text) : Text :=
  match cutLast sep t with
  | none => []
  | some (_, after) => sep :: after

theorem cutLast_isSome {sep : Char} {t : Text} (h : sep ∈ t) :
    ∃ before after, cutLast sep t = some (before, after) := by
  rcases hcut : cutLast sep t with _ | ⟨before, after⟩
  · exact absurd h (cutLast_eq_none hcut)
  · exact ⟨before, after, rfl⟩

/-- What is not cut goes with what stands behind the last cut. -/
theorem cutLast_append_of_not_mem {sep : Char} {t : Text} (s : Text) (ht : sep ∉ t) :
    cutLast sep (s ++ t) = (cutLast sep s).map fun cut => (cut.1, cut.2 ++ t) := by
  rcases hcut : cutLast sep s with _ | ⟨before, after⟩
  · exact cutLast_of_not_mem (by simp [cutLast_eq_none hcut, ht])
  · have hafter : sep ∉ after ++ t := by simp [not_mem_of_cutLast hcut, ht]
    rw [eq_of_cutLast hcut, List.append_assoc, List.cons_append, cutLast_append before hafter]
    rfl

theorem fromLast_suffix (sep : Char) (t : Text) : fromLast sep t <:+ t := by
  unfold fromLast
  split
  · exact List.nil_suffix
  · rename_i before after hcut
    exact ⟨before, (eq_of_cutLast hcut).symm⟩

/-- A text that is cut nowhere behind its first character is all there is. -/
theorem fromLast_cons {sep : Char} {t : Text} (ht : sep ∉ t) :
    fromLast sep (sep :: t) = sep :: t := by
  have hcut : cutLast sep (sep :: t) = some ([], t) := cutLast_append [] ht
  rw [fromLast, hcut]

/-- The last of some texts goes on where they are put together. -/
theorem joinWith_last (sep : Char) (ts : List Text) (t : Text) :
    joinWith [sep] (ts ++ [t]) = (ts.flatMap fun s => s ++ [sep]) ++ t := by
  induction ts with
  | nil => exact joinWith_singleton t
  | cons s ss ih => rw [List.cons_append, joinWith_cons s (by simp), ih]; simp

end Text

namespace Path

/-- A name with a character besides dots in it is proper. -/
theorem isName_of_not_dots {n : Text} (hslash : '/' ∉ n) (h : ∃ c ∈ n, c ≠ '.') : IsName n := by
  obtain ⟨c, hc, hdot⟩ := h
  refine ⟨List.ne_nil_of_mem hc, ?_, ?_, hslash⟩
  · rintro rfl
    exact hdot (List.mem_singleton.mp hc)
  · rintro rfl
    simp [up, hdot] at hc

/-! ### The last name -/

theorem not_mem_splitLast (p : Text) : '/' ∉ (splitLast p).2 := by
  unfold splitLast
  split
  · rename_i hcut
    exact Text.cutLast_eq_none hcut
  · rename_i hcut
    exact Text.not_mem_of_cutLast hcut

theorem splitLast_suffix (p : Text) : (splitLast p).2 <:+ p := by
  unfold splitLast
  split
  · exact List.suffix_rfl
  · rename_i before name hcut
    exact ⟨before ++ ['/'], by rw [Text.eq_of_cutLast hcut]; simp⟩

theorem splitLast_of_no_slash {n : Text} (h : '/' ∉ n) : splitLast n = ([], n) := by
  rw [splitLast, Text.cutLast_of_not_mem h]

/-- The last name is where a path goes on. -/
theorem components_append_last {p : Text} (h : (splitLast p).2 ≠ []) :
    ∃ front, ∀ e, '/' ∉ e → components (p ++ e) = front ++ [(splitLast p).2 ++ e] := by
  rcases hcut : Text.cutLast '/' p with _ | ⟨before, after⟩
  · have hlast : (splitLast p).2 = p := by rw [splitLast, hcut]
    rw [hlast] at h ⊢
    refine ⟨[], fun e he => ?_⟩
    exact components_of_no_slash (by simp [Text.cutLast_eq_none hcut, he]) (by simp [h])
  · have hlast : (splitLast p).2 = after := by rw [splitLast, hcut]
    rw [hlast] at h ⊢
    refine ⟨components before, fun e he => ?_⟩
    have hslash : '/' ∉ after ++ e := by simp [Text.not_mem_of_cutLast hcut, he]
    rw [Text.eq_of_cutLast hcut, List.append_assoc, List.cons_append, components_append_slash,
      components_of_no_slash hslash (by simp [h])]

/-! ### Normal forms -/

theorem reduce_concat (absolute : Bool) (front : List Text) {n : Text} (h : IsName n) :
    reduce absolute (front ++ [n]) = reduce absolute front ++ [n] := by
  simp [reduce, pushName_of_isName absolute h]

/-- A normal form with a proper name at its end: the text in front of that name depends on the names
in front of it alone. -/
theorem normalize_last {p : Text} {front : List Text} {n : Text} (h : components p = front ++ [n])
    (hn : IsName n) :
    normalize p
      = (anchor p ++ (reduce (isAbsolute p) front).flatMap fun m => m ++ ['/']) ++ n := by
  rw [normalize_eq_ofNames, ← reduce_components, h, reduce_concat _ _ hn, ofNames,
    Text.joinWith_last, ← List.append_assoc]
  split
  · rename_i hnil
    exact absurd (List.append_eq_nil_iff.mp hnil).2 hn.ne_nil
  · rfl

/-- What is written behind a proper name is written behind it in the normal form. -/
theorem normalize_append {p e : Text} {front : List Text} {n : Text}
    (h : components p = front ++ [n]) (hmore : components (p ++ e) = front ++ [n ++ e])
    (hn : IsName n) (hne : IsName (n ++ e)) : normalize (p ++ e) = normalize p ++ e := by
  obtain ⟨c, cs, hcs⟩ := List.exists_cons_of_ne_nil hn.ne_nil
  have hmem : n ∈ components p := by simp [h]
  have hc : c ∈ p ∧ c ≠ '/' :=
    ⟨mem_of_mem_components hmem (by simp [hcs]), fun hc => hn.no_slash (by simp [hcs, hc])⟩
  rw [normalize_last hmore hne, normalize_last h hn, anchor_append_of_not_slash ⟨c, hc⟩,
    isAbsolute_append_of_ne_nil (List.ne_nil_of_mem hc.1)]
  simp

/-- The last name of a normal form. -/
theorem splitLast_normalize {p : Text} {front : List Text} {n : Text}
    (h : components p = front ++ [n]) (hn : IsName n) : (splitLast (normalize p)).2 = n := by
  rw [normalize_last h hn]
  -- In front of the name there is nothing, or something that ends in a slash.
  generalize hbefore : anchor p ++ (reduce (isAbsolute p) front).flatMap (fun m => m ++ ['/'])
    = before
  have hend : before = [] ∨ ∃ init, before = init ++ ['/'] := by
    rcases List.eq_nil_or_concat (reduce (isAbsolute p) front) with hnil | ⟨ms, m, hms⟩
    · rw [hnil, List.flatMap_nil, List.append_nil] at hbefore
      rcases anchor_cases p with ⟨-, ha⟩ | ⟨-, ha | ha⟩
      · exact .inl (hbefore.symm.trans ha)
      · exact .inr ⟨[], hbefore.symm.trans ha⟩
      · exact .inr ⟨['/'], hbefore.symm.trans ha⟩
    · right
      rw [hms] at hbefore
      refine ⟨anchor p ++ (ms.flatMap fun m => m ++ ['/']) ++ m, ?_⟩
      rw [← hbefore]
      simp
  rcases hend with rfl | ⟨init, rfl⟩
  · rw [List.nil_append, splitLast_of_no_slash hn.no_slash]
  · rw [List.append_assoc, List.singleton_append, splitLast, Text.cutLast_append init hn.no_slash]

/-- A path in normal form ends in its last name. -/
theorem suffix_of_components {p : Text} (hnormal : normalize p = p) {front : List Text} {n : Text}
    (h : components p = front ++ [n]) (hn : IsName n) : n <:+ p := by
  rw [← hnormal, normalize_last h hn]
  exact List.suffix_append _ _

/-! ### Extensions -/

theorem extension_suffix (p : Text) : extension p <:+ p := by
  unfold extension splitExtension
  dsimp only
  split
  · exact List.nil_suffix
  · rename_i stem rest hcut
    split
    · exact List.nil_suffix
    · refine List.IsSuffix.trans ⟨stem, ?_⟩ (splitLast_suffix p)
      exact (Text.eq_of_cutLast hcut).symm

/-- Behind a name that is not all dots, what stands from the last dot on is the extension. -/
theorem extension_append {n e : Text} (hn : ∃ c ∈ n, c ≠ '.') (hslash : '/' ∉ n ++ e)
    (hdot : '.' ∈ e) : extension (n ++ e) = Text.fromLast '.' e := by
  obtain ⟨before, after, hcut⟩ := Text.cutLast_isSome hdot
  have he : e = before ++ '.' :: after := Text.eq_of_cutLast hcut
  have hcutBoth : Text.cutLast '.' (n ++ e) = some (n ++ before, after) := by
    rw [he, ← List.append_assoc, Text.cutLast_append _ (Text.not_mem_of_cutLast hcut)]
  have hstem : (n ++ before).all (· = '.') = false := by
    obtain ⟨c, hc, hne⟩ := hn
    exact List.all_eq_false.mpr ⟨c, by simp [hc], by simp [hne]⟩
  rw [extension, splitExtension, splitLast_of_no_slash hslash]
  simp [hcutBoth, hstem, Text.fromLast, hcut]

end Path

namespace Spelling

/-- What holds no separator is left as it is behind any text. -/
theorem unifyRuns_append_of_no_separator {e : Text} (he : ∀ c ∈ e, isSeparator c = false)
    (sep : Text) (inRun : Bool) (t : Text) :
    unifyRuns sep inRun (t ++ e) = unifyRuns sep inRun t ++ e := by
  induction t generalizing inRun with
  | nil =>
    induction e generalizing inRun with
    | nil => rfl
    | cons c cs ih =>
      have hcs := ih (fun d hd => he d (List.mem_cons_of_mem _ hd)) false
      simp only [List.nil_append, unifyRuns] at hcs ⊢
      rw [he c List.mem_cons_self, hcs]
      rfl
  | cons c cs ih =>
    rw [List.cons_append, unifyRuns, unifyRuns, ih, ih]
    split <;> simp

end Spelling

namespace Uri

/-- What is plain and holds no slash is spelled as it is. -/
theorem spelled_append {unified : Bool} {t e : Text} (ht : IsPlain unified t)
    (he : IsPlain unified e) (hslash : '/' ∉ e) :
    spelled unified (t ++ e) = spelled unified t ++ e := by
  rw [spelled, written_eq_self fun c hc => ((ht.append he) c hc).1, spelled,
    written_eq_self fun c hc => (ht c hc).1]
  cases unified with
  | false => rfl
  | true =>
    refine Spelling.unifyRuns_append_of_no_separator (fun c hc => ?_) ['/'] false t
    have hne : c ≠ '/' := fun h => hslash (h ▸ hc)
    simp [Spelling.isSeparator, hne, (he c hc).2 rfl]

/-- What is written behind the last name of an identifier stands behind its path. -/
theorem pathOf_append {unified : Bool} {t e : Text} (ht : IsPlain unified t)
    (he : IsPlain unified e) (hslash : '/' ∉ e) (hlast : Path.IsName (Path.splitLast t).2)
    (hmore : Path.IsName ((Path.splitLast t).2 ++ e)) :
    pathOf unified (t ++ e) = pathOf unified t ++ e := by
  obtain ⟨front, hfront⟩ := Path.components_append_last hlast.ne_nil
  have hcomponents : Path.components (spelled unified t) = front ++ [(Path.splitLast t).2] := by
    have hself := hfront [] (by simp)
    rwa [List.append_nil, List.append_nil, ← ht.components_spelled] at hself
  have hlonger : Path.components (spelled unified t ++ e)
      = front ++ [(Path.splitLast t).2 ++ e] := by
    rw [← spelled_append ht he hslash, (ht.append he).components_spelled, hfront e hslash]
  have hne : spelled unified t ≠ [] := by
    intro hnil
    simp [hnil, Path.components, Text.pieces] at hcomponents
  rw [pathOf_eq, pathOf_eq, spelled_append ht he hslash, if_neg hne, if_neg (by simp [hne])]
  exact Path.normalize_append hcomponents hlonger hlast hmore

end Uri

end StyleImport
