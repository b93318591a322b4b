/-
The path of an identifier as it is spelled there.

An identifier ends its path at the first `?` or `#`, and where separators are unified a backslash is
a slash.  `Uri.spelled` is the path read so and not yet brought into normal form.

* `Uri.pathOf_eq` — the path of an identifier is the normal form of what is spelled;
* `Uri.absolute_pathOf` — seen from a directory it means what is spelled;
* `Uri.components_spelled_append_slash` — what a name below a location spells: nothing beyond the
  location, if the location has a mark in it.
-/
import Mathlib.Data.List.TakeWhile
import StyleImport.Proofs.Path.Places
import StyleImport.Uri

namespace StyleImport

namespace Spelling

/-- The text with a slash for each character that separates names. -/
def slashed (unified : Bool) (t : Text) : Text :=
  if unified then t.map fun c => if isSeparator c then '/' else c else t

theorem slashed_append (unified : Bool) (s t : Text) :
    slashed unified (s ++ t) = slashed unified s ++ slashed unified t := by
  unfold slashed
  split <;> simp

theorem slashed_slash_cons (unified : Bool) (t : Text) :
    slashed unified ('/' :: t) = '/' :: slashed unified t := by
  unfold slashed
  split <;> simp [isSeparator]

theorem slashed_eq_self {unified : Bool} {t : Text} (h : unified = true → '\\' ∉ t) :
    slashed unified t = t := by
  cases unified with
  | false => rfl
  | true =>
    have hmap : ∀ c ∈ t, (if isSeparator c then '/' else c) = id c := by
      intro c hc
      have hne : c ≠ '\\' := fun h' => h rfl (h' ▸ hc)
      by_cases hslash : c = '/' <;> simp [isSeparator, hne, hslash]
    rw [slashed, if_pos rfl, List.map_congr_left hmap, List.map_id]

/-- Unified runs and single slashes cut a text alike, up to empty names.  Outside of a run even the
first names are the same. -/
theorem pieces_unifyRuns (t : Text) :
    (∃ p ps qs, Text.pieces '/' (unifyRuns ['/'] false t) = p :: ps ∧
        Text.pieces '/' (slashed true t) = p :: qs ∧
        ps.filter (· ≠ []) = qs.filter (· ≠ [])) ∧
      (Text.pieces '/' (unifyRuns ['/'] true t)).filter (· ≠ [])
        = (Text.pieces '/' (slashed true t)).filter (· ≠ []) := by
  induction t with
  | nil => exact ⟨⟨[], [], [], rfl, rfl, rfl⟩, rfl⟩
  | cons c cs ih =>
    obtain ⟨⟨p, ps, qs, hps, hqs, hfilter⟩, hrun⟩ := ih
    by_cases hc : isSeparator c = true
    · have hslashed : slashed true (c :: cs) = '/' :: slashed true cs := by
        simp [slashed, hc]
      have hpieces : Text.pieces '/' (slashed true (c :: cs))
          = [] :: Text.pieces '/' (slashed true cs) := by
        rw [hslashed, Text.pieces, if_pos rfl]
      refine ⟨⟨[], Text.pieces '/' (unifyRuns ['/'] true cs), Text.pieces '/' (slashed true cs),
        ?_, hpieces, hrun⟩, ?_⟩
      · simp [unifyRuns, hc, Text.pieces]
      · rw [hpieces]
        simpa [unifyRuns, hc] using hrun
    · have hne : c ≠ '/' := fun h => hc (by simp [isSeparator, h])
      have hslashed : slashed true (c :: cs) = c :: slashed true cs := by
        simp [slashed, hc]
      -- A name goes on alike whether or not a run stood in front of it.
      have hunified (inRun : Bool) : Text.pieces '/' (unifyRuns ['/'] inRun (c :: cs))
          = (c :: p) :: ps := by
        simp [unifyRuns, hc, Text.pieces, hne, hps]
      have hpieces : Text.pieces '/' (slashed true (c :: cs)) = (c :: p) :: qs := by
        rw [hslashed]
        simp [Text.pieces, hne, hqs]
      refine ⟨⟨c :: p, ps, qs, hunified false, hpieces, hfilter⟩, ?_⟩
      rw [hunified, hpieces, List.filter_cons_of_pos (by simp),
        List.filter_cons_of_pos (by simp), hfilter]

/-- The names of a text with unified separators. -/
theorem components_respell (unified : Bool) (t : Text) :
    Path.components (respell unified ['/'] t) = Path.components (slashed unified t) := by
  cases unified with
  | false => rfl
  | true =>
    obtain ⟨⟨p, ps, qs, hps, hqs, hfilter⟩, -⟩ := pieces_unifyRuns t
    rw [respell, if_pos rfl, Path.components, Path.components, hps, hqs]
    by_cases hp : p = [] <;> simp_all

theorem isAbsolute_respell (unified : Bool) (t : Text) :
    Path.isAbsolute (respell unified ['/'] t) = Path.isAbsolute (slashed unified t) := by
  cases unified with
  | false => rfl
  | true =>
    cases t with
    | nil => rfl
    | cons c cs =>
      by_cases hc : isSeparator c = true
      · simp [respell, slashed, unifyRuns, hc, Path.isAbsolute]
      · have hne : c ≠ '/' := fun h => hc (by simp [isSeparator, h])
        simp [respell, slashed, unifyRuns, hc, Path.isAbsolute, hne]

theorem respell_eq_nil (unified : Bool) {sep t : Text} (hsep : sep ≠ []) :
    respell unified sep t = [] ↔ t = [] := by
  cases unified with
  | false => rfl
  | true =>
    cases t with
    | nil => simp [respell, unifyRuns]
    | cons c cs =>
      by_cases hc : isSeparator c = true <;> simp [respell, unifyRuns, hc, hsep]

/-! ### What is unified stays as it is -/

theorem backslash_not_mem_unifyRuns (inRun : Bool) (t : Text) :
    '\\' ∉ unifyRuns ['/'] inRun t := by
  induction t generalizing inRun with
  | nil => simp [unifyRuns]
  | cons c cs ih =>
    by_cases hc : isSeparator c = true
    · cases inRun <;> simp [unifyRuns, hc, ih]
    · have hne : '\\' ≠ c := fun h => hc (by simp [isSeparator, ← h])
      simp [unifyRuns, hc, ih, hne]

theorem mem_unifyRuns {sep : Text} {inRun : Bool} {t : Text} {c : Char}
    (h : c ∈ unifyRuns sep inRun t) : c ∈ sep ∨ c ∈ t := by
  induction t generalizing inRun with
  | nil => simp [unifyRuns] at h
  | cons d ds ih =>
    rw [unifyRuns] at h
    split at h
    · rcases List.mem_append.mp h with h | h
      · left
        split at h
        · simp at h
        · exact h
      · exact (ih h).imp_right (List.mem_cons_of_mem d)
    · rcases List.mem_cons.mp h with rfl | h
      · exact .inr List.mem_cons_self
      · exact (ih h).imp_right (List.mem_cons_of_mem d)

theorem mem_respell {unified : Bool} {sep t : Text} {c : Char} (h : c ∈ respell unified sep t) :
    c ∈ sep ∨ c ∈ t := by
  cases unified with
  | false => exact .inr h
  | true => exact mem_unifyRuns h

/-- What was unified with one separator is unified with another one as if it were for the first
time. -/
theorem unifyRuns_unifyRuns {c : Char} (hc : isSeparator c = true) (sep : Text) (inRun : Bool)
    (t : Text) : unifyRuns sep inRun (unifyRuns [c] inRun t) = unifyRuns sep inRun t := by
  induction t generalizing inRun with
  | nil => rfl
  | cons d ds ih =>
    by_cases hd : isSeparator d = true
    · cases inRun <;> simp [unifyRuns, hc, hd, ih]
    · simp [unifyRuns, hd, ih]

theorem respell_respell {c : Char} (hc : isSeparator c = true) (unified : Bool) (sep t : Text) :
    respell unified sep (respell unified [c] t) = respell unified sep t := by
  cases unified with
  | false => rfl
  | true => exact unifyRuns_unifyRuns hc sep false t

theorem head?_unifyRuns_true (t : Text) : (unifyRuns ['/'] true t).head? ≠ some '/' := by
  induction t with
  | nil => simp [unifyRuns]
  | cons c cs ih =>
    by_cases hc : isSeparator c = true
    · simpa [unifyRuns, hc] using ih
    · have hne : c ≠ '/' := fun h => hc (by simp [isSeparator, h])
      simp [unifyRuns, hc, hne]

/-- A run of separators in front becomes a single slash. -/
theorem anchor_unifyRuns (t : Text) :
    Path.anchor (unifyRuns ['/'] false t) = [] ∨
      Path.anchor (unifyRuns ['/'] false t) = ['/'] := by
  cases t with
  | nil => exact .inl rfl
  | cons c cs =>
    by_cases hc : isSeparator c = true
    · right
      have hunified : unifyRuns ['/'] false (c :: cs) = '/' :: unifyRuns ['/'] true cs := by
        simp [unifyRuns, hc]
      have hhead := head?_unifyRuns_true cs
      rw [hunified]
      rcases hrest : unifyRuns ['/'] true cs with _ | ⟨d, ds⟩
      · rfl
      · have hd : d ≠ '/' := by simpa [hrest] using hhead
        simp [Path.anchor, hd]
    · left
      have hne : c ≠ '/' := fun h => hc (by simp [isSeparator, h])
      simp [unifyRuns, hc, Path.anchor, hne]

theorem unifyRuns_append {n : Text} (hn : ∀ c ∈ n, isSeparator c = false) (hne : n ≠ [])
    (inRun : Bool) (t : Text) :
    unifyRuns ['/'] inRun (n ++ t) = n ++ unifyRuns ['/'] false t := by
  induction n generalizing inRun with
  | nil => exact absurd rfl hne
  | cons c cs ih =>
    have hc : isSeparator c = false := hn c List.mem_cons_self
    cases cs with
    | nil => simp [unifyRuns, hc]
    | cons d ds =>
      rw [List.cons_append, unifyRuns, hc, if_neg (by simp),
        ih (fun e he => hn e (List.mem_cons_of_mem _ he)) (by simp) false]
      rfl

/-- Names put together with slashes are unified already. -/
theorem unifyRuns_joinWith {names : List Text} (hne : ∀ n ∈ names, n ≠ [])
    (hsep : ∀ n ∈ names, ∀ c ∈ n, isSeparator c = false) (inRun : Bool) :
    unifyRuns ['/'] inRun (Text.joinWith ['/'] names) = Text.joinWith ['/'] names := by
  induction names generalizing inRun with
  | nil => rfl
  | cons n ns ih =>
    have hn := hsep n List.mem_cons_self
    have hnne := hne n List.mem_cons_self
    cases ns with
    | nil =>
      have hname := unifyRuns_append hn hnne inRun []
      simpa [Text.joinWith, List.intercalate, unifyRuns] using hname
    | cons m ms =>
      have hrest := ih (fun k hk => hne k (List.mem_cons_of_mem _ hk))
        (fun k hk => hsep k (List.mem_cons_of_mem _ hk)) true
      rw [Text.joinWith_cons n (by simp), unifyRuns_append hn hnne, unifyRuns, if_pos (by decide),
        if_neg (by simp), hrest, List.singleton_append]

/-- The normal form of a text with unified separators has unified separators. -/
theorem respell_normalize (unified : Bool) (t : Text) :
    respell unified ['/'] (Path.normalize (respell unified ['/'] t))
      = Path.normalize (respell unified ['/'] t) := by
  cases unified with
  | false => rfl
  | true =>
    simp only [respell, if_pos]
    set u := unifyRuns ['/'] false t with hu
    set names := Path.reduce (Path.isAbsolute u) (Text.pieces '/' u) with hnames
    -- No name of the normal form has a separator in it: all there is to unify are its slashes.
    have hred : Path.Reduced (Path.isAbsolute u) names :=
      Path.reduced_reduce _ (Path.no_slash_of_mem_pieces u)
    have hne : ∀ n ∈ names, n ≠ [] := fun n hn => hred.ne_nil hn
    have hsep : ∀ n ∈ names, ∀ c ∈ n, isSeparator c = false := by
      intro n hn c hc
      have hback : c ≠ '\\' := by
        rintro rfl
        exact backslash_not_mem_unifyRuns false t
          (Text.mem_of_mem_pieces (Path.mem_of_mem_reduce hn) hc)
      have hslash : c ≠ '/' := fun h => hred.no_slash hn (h ▸ hc)
      simp [isSeparator, hback, hslash]
    rw [Path.normalize_eq_ofNames, ← hnames]
    unfold Path.ofNames
    split
    · rfl
    · rcases anchor_unifyRuns t with ha | ha
      · rw [ha, List.nil_append, unifyRuns_joinWith hne hsep]
      · rw [ha, List.singleton_append, unifyRuns, if_pos (by decide), if_neg (by simp),
          unifyRuns_joinWith hne hsep, List.singleton_append]

end Spelling

namespace Uri

/-- What an identifier has in front of its query and its fragment. -/
def written (t : Text) : Text := t.takeWhile (!isSuffixMark ·)

theorem written_cons (c : Char) (cs : Text) :
    written (c :: cs) = if isSuffixMark c then [] else c :: written cs := by
  by_cases hc : isSuffixMark c = true <;> simp [written, hc]

theorem written_slash_cons (t : Text) : written ('/' :: t) = '/' :: written t := by
  simp [written_cons, isSuffixMark]

/-- The path in front of an identifier, with its separators as they are read. -/
def spelled (unified : Bool) (t : Text) : Text := Spelling.respell unified ['/'] (written t)

@[simp] theorem path_addQuery (u : Uri) (piece : Text) : (u.addQuery piece).path = u.path := by
  unfold addQuery
  split <;> rfl

/-- The path of an identifier is the normal form of what is spelled. -/
theorem pathOf_eq (unified : Bool) (t : Text) :
    pathOf unified t
      = if spelled unified t = [] then [] else Path.normalize (spelled unified t) := by
  have hparse : pathOf unified t
      = ((⟨{ unified }, [], [], []⟩ : Uri).setPath (written t)).path := by
    -- Queries and fragments are added behind the path and leave it alone.
    unfold pathOf parse
    simp only [setFragment, setQuery, path_addQuery]
    congr 2
    unfold split
    dsimp only
    by_cases hw : t.takeWhile (!isSuffixMark ·) = []
    · rw [if_pos hw]
      exact hw.symm
    · rw [if_neg hw]
      rfl
  have hnil : spelled unified t = [] ↔ written t = [] :=
    Spelling.respell_eq_nil unified (List.cons_ne_nil _ _)
  rw [hparse, setPath]
  by_cases hw : written t = []
  · rw [if_pos hw, if_pos (hnil.mpr hw)]
  · rw [if_neg hw, if_neg (mt hnil.mp hw)]
    exact Spelling.respell_normalize unified (written t)

/-- Seen from a directory, the path of an identifier means what is spelled. -/
theorem absolute_pathOf {cwd : Text} (hcwd : Path.isAbsolute cwd = true) (unified : Bool)
    (t : Text) : Path.absolute cwd (pathOf unified t) = Path.absolute cwd (spelled unified t) := by
  rw [pathOf_eq]
  split
  · rename_i hnil
    rw [hnil]
  · exact Path.absolute_normalize hcwd _

/-! ### Absolute identifiers -/

theorem isAbsolute_spelled (unified : Bool) {t : Text} (h : Path.isAbsolute t = true) :
    Path.isAbsolute (spelled unified t) = true := by
  obtain ⟨cs, rfl⟩ := Path.eq_cons_of_isAbsolute h
  rw [spelled, written_slash_cons, Spelling.isAbsolute_respell, Spelling.slashed_slash_cons]
  rfl

theorem pathOf_of_isAbsolute (unified : Bool) {t : Text} (h : Path.isAbsolute t = true) :
    pathOf unified t = Path.normalize (spelled unified t) := by
  have hspelled := isAbsolute_spelled unified h
  rw [pathOf_eq, if_neg]
  intro hnil
  simp [hnil, Path.isAbsolute] at hspelled

/-- The path of an absolute identifier is seen alike from anywhere. -/
theorem absolute_pathOf_of_isAbsolute (cwd : Text) (unified : Bool) {t : Text}
    (h : Path.isAbsolute t = true) : Path.absolute cwd (pathOf unified t) = pathOf unified t := by
  have hspelled := isAbsolute_spelled unified h
  rw [pathOf_of_isAbsolute unified h,
    Path.absolute_of_isAbsolute cwd ((Path.isAbsolute_normalize _).trans hspelled),
    Path.normalize_normalize]

/-- The path of an absolute identifier is the place that its names lead to. -/
theorem components_pathOf (unified : Bool) {t : Text} (h : Path.isAbsolute t = true) :
    Path.components (pathOf unified t)
      = Path.moveAll [] (Path.components (spelled unified t)) := by
  rw [pathOf_of_isAbsolute unified h,
    Path.components_normalize (isAbsolute_spelled unified h)]

/-! ### Below a location -/

theorem written_append_slash (s t : Text) :
    written (s ++ '/' :: t) = if s.any isSuffixMark then written s else s ++ '/' :: written t := by
  induction s with
  | nil => exact written_slash_cons t
  | cons c cs ih =>
    rw [List.cons_append, written_cons, written_cons, List.any_cons]
    by_cases hc : isSuffixMark c = true
    · simp [hc]
    · rw [if_neg hc, if_neg hc, ih, Bool.eq_false_iff.mpr hc, Bool.false_or]
      split <;> rfl

theorem written_eq_self {t : Text} (h : ∀ c ∈ t, isSuffixMark c = false) : written t = t := by
  rw [written, List.takeWhile_eq_self_iff]
  intro c hc
  simp [h c hc]

/-- A mark in a location hides what stands below it. -/
theorem pathOf_append_slash_of_mark (unified : Bool) {s : Text} (h : s.any isSuffixMark = true)
    (t : Text) : pathOf unified (s ++ '/' :: t) = pathOf unified s := by
  have hspelled : spelled unified (s ++ '/' :: t) = spelled unified s := by
    rw [spelled, written_append_slash, if_pos h, spelled]
  rw [pathOf_eq, pathOf_eq, hspelled]

/-- The names that are spelled by a name below a location. -/
theorem components_spelled_append_slash (unified : Bool) (s t : Text) :
    Path.components (spelled unified (s ++ '/' :: t))
      = if s.any isSuffixMark then Path.components (spelled unified s)
        else Path.components (spelled unified s) ++ Path.components (spelled unified t) := by
  unfold spelled
  rw [written_append_slash]
  split
  · rfl
  · rename_i hmark
    have hs : written s = s := written_eq_self fun c hc => by
      simpa using fun h => hmark (List.any_eq_true.mpr ⟨c, hc, h⟩)
    simp only [Spelling.components_respell, hs]
    rw [Spelling.slashed_append, Spelling.slashed_slash_cons, Path.components_append_slash]

/-! ### Texts that mean nothing special -/

/-- Whether no character of a text means anything special to identifiers, slashes apart: none ends
the path, and none is a backslash where separators are unified. -/
def IsPlain (unified : Bool) (t : Text) : Prop :=
  ∀ c ∈ t, isSuffixMark c = false ∧ (unified = true → c ≠ '\\')

instance (unified : Bool) (t : Text) : Decidable (IsPlain unified t) :=
  -- Given by name: a search may find the instance that tries every character there is.
  List.decidableBAll (fun c => isSuffixMark c = false ∧ (unified = true → c ≠ '\\')) t

theorem isPlain_nil (unified : Bool) : IsPlain unified [] := fun c hc => absurd hc (by simp)

theorem isPlain_slash (unified : Bool) : IsPlain unified ['/'] := by
  intro c hc
  rw [List.mem_singleton] at hc
  subst hc
  exact ⟨by decide, fun _ => by decide⟩

theorem IsPlain.append {unified : Bool} {s t : Text} (hs : IsPlain unified s)
    (ht : IsPlain unified t) : IsPlain unified (s ++ t) := by
  intro c hc
  rcases List.mem_append.mp hc with hc | hc
  · exact hs c hc
  · exact ht c hc

theorem IsPlain.mono {unified : Bool} {s t : Text} (ht : IsPlain unified t)
    (h : ∀ c ∈ s, c ∈ t) : IsPlain unified s := fun c hc => ht c (h c hc)

/-- A plain text spells itself, up to doubled slashes. -/
theorem IsPlain.components_spelled {unified : Bool} {t : Text} (h : IsPlain unified t) :
    Path.components (spelled unified t) = Path.components t := by
  have hback : unified = true → '\\' ∉ t := fun hu hmem => (h '\\' hmem).2 hu rfl
  rw [spelled, Spelling.components_respell, written_eq_self fun c hc => (h c hc).1,
    Spelling.slashed_eq_self hback]

/-- Below a plain text, its names come first. -/
theorem IsPlain.components_spelled_below {unified : Bool} {s : Text} (h : IsPlain unified s)
    (t : Text) : Path.components (spelled unified (s ++ '/' :: t))
      = Path.components s ++ Path.components (spelled unified t) := by
  have hmark : s.any isSuffixMark = false :=
    List.any_eq_false.mpr fun c hc => by simp [(h c hc).1]
  rw [components_spelled_append_slash, hmark, if_neg Bool.false_ne_true, h.components_spelled]

theorem IsPlain.spelled (unified : Bool) (t : Text) : IsPlain unified (spelled unified t) := by
  intro c hc
  have hwritten : c = '/' ∨ c ∈ written t :=
    (Spelling.mem_respell hc).imp_left List.mem_singleton.mp
  refine ⟨?_, ?_⟩
  · rcases hwritten with rfl | hwritten
    · decide
    · simpa using List.mem_takeWhile_imp hwritten
  · rintro rfl rfl
    exact Spelling.backslash_not_mem_unifyRuns false (written t) hc

/-- The path of an identifier is plain. -/
theorem isPlain_pathOf (unified : Bool) (t : Text) : IsPlain unified (pathOf unified t) := by
  intro c hc
  rw [pathOf_eq] at hc
  split at hc
  · simp at hc
  · rcases Path.mem_normalize hc with rfl | rfl | hc
    · exact ⟨by decide, fun _ => by decide⟩
    · exact ⟨by decide, fun _ => by decide⟩
    · exact IsPlain.spelled unified t c hc

/-- The path of an identifier that is relative is a dot or has neither dots nor empty names. -/
theorem pieces_pathOf {unified : Bool} {t : Text} (hne : pathOf unified t ≠ [])
    (hrel : Path.isAbsolute (pathOf unified t) = false) :
    pathOf unified t = Path.here ∨
      ∀ n ∈ Text.pieces '/' (pathOf unified t), n ≠ [] ∧ n ≠ Path.here := by
  rw [pathOf_eq] at hne hrel ⊢
  split at hne
  · exact absurd rfl hne
  · rename_i hspelled
    rw [if_neg hspelled] at hrel ⊢
    rw [Path.isAbsolute_normalize] at hrel
    exact Path.pieces_normalize hrel

end Uri

end StyleImport
