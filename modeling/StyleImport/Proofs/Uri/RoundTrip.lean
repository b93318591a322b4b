/-
Identifiers put together and taken apart again.

The parts of an identifier are told apart by the characters that they start with, so each is found
again as long as no such character stands before it (`Uri.Separable`).  Taking an identifier apart
also brings its path and its query into a form, and these have to be forms that stay.

* `Uri.Separable.split_render` — separable parts are cut where they were put together;
* `Uri.parse_eq` — the parts of an identifier: what it is cut into, the path and the query in form;
* `Uri.parse_render` — so what was taken apart and put together is taken apart into the same parts.
-/
import Mathlib.Data.List.DropRight
import StyleImport.Proofs.Path.Spelled

namespace StyleImport

namespace Text

/-- Whether a text starts with a mark, if there is anything of it. -/
def OpensWith (mark : Char) (t : Text) : Prop := ∀ c, t.head? = some c → c = mark

theorem OpensWith.nil (mark : Char) : OpensWith mark [] := by simp [OpensWith]

theorem OpensWith.cons (mark : Char) (t : Text) : OpensWith mark (mark :: t) := by
  simp [OpensWith]

theorem OpensWith.takeWhile {mark : Char} {t : Text} (h : OpensWith mark t) (p : Char → Bool) :
    OpensWith mark (t.takeWhile p) := by
  intro c hc
  cases t with
  | nil => cases hc
  | cons d ds =>
    rw [List.takeWhile_cons] at hc
    split at hc
    · exact h c hc
    · cases hc

/-- A front whose characters are all of one kind ends where another kind begins. -/
theorem takeWhile_dropWhile_append {p : Char → Bool} {front back : Text}
    (hfront : ∀ c ∈ front, p c = true) (hback : ∀ c, back.head? = some c → p c = false) :
    (front ++ back).takeWhile p = front ∧ (front ++ back).dropWhile p = back := by
  have hstop : back.takeWhile p = [] ∧ back.dropWhile p = back := by
    cases back with
    | nil => exact ⟨rfl, rfl⟩
    | cons c cs => simp [hback c rfl]
  rw [List.takeWhile_append_of_pos hfront, List.dropWhile_append_of_pos hfront, hstop.1, hstop.2]
  exact ⟨List.append_nil front, rfl⟩

end Text

namespace Uri

/-! ### Parts that are found again -/

/-- The parts of an identifier can be told apart in what they are put together to. -/
structure Separable (u : Uri) : Prop where
  path_ne_nil : u.path ≠ []
  path_plain : ∀ c ∈ u.path, isSuffixMark c = false
  search_opens : Text.OpensWith '?' u.search
  search_plain : '#' ∉ u.search
  fragment_opens : Text.OpensWith '#' u.fragment
  fragment_plain : '\n' ∉ u.fragment

/-- Separable parts are cut where they were put together. -/
theorem Separable.split_render {u : Uri} (h : u.Separable) :
    split u.render = (u.path, u.search, u.fragment) := by
  obtain ⟨_, path, search, fragment⟩ := u
  have hmark : ∀ c, (search ++ fragment).head? = some c → (!isSuffixMark c) = false := by
    intro c hc
    rw [List.head?_append, Option.or_eq_some_iff] at hc
    rcases hc with hc | ⟨-, hc⟩
    · rw [h.search_opens c hc]
      rfl
    · rw [h.fragment_opens c hc]
      rfl
  obtain ⟨hpath, hsuffix⟩ :=
    Text.takeWhile_dropWhile_append (by simpa using h.path_plain) hmark
  have hline : fragment.takeWhile (· ≠ '\n') = fragment := by
    rw [List.takeWhile_eq_self_iff]
    intro c hc
    have hne : c ≠ '\n' := fun hnl => h.fragment_plain (hnl ▸ hc)
    simpa using hne
  rw [render, List.append_assoc, split, hpath, hsuffix, if_neg h.path_ne_nil]
  cases search with
  | nil =>
    -- A suffix without a question mark in front is the fragment.
    cases fragment with
    | nil => rfl
    | cons c cs =>
      obtain rfl : c = '#' := h.fragment_opens c rfl
      exact congrArg (fun f => (path, [], f)) hline
  | cons c cs =>
    obtain rfl : c = '?' := h.search_opens c rfl
    have hinside : ∀ c ∈ '?' :: cs, (decide (c ≠ '#')) = true := by
      intro c hc
      have hne : c ≠ '#' := fun hsign => h.search_plain (hsign ▸ hc)
      simpa using hne
    have hend : ∀ c, fragment.head? = some c → (decide (c ≠ '#')) = false := by
      intro c hc
      rw [h.fragment_opens c hc]
      rfl
    obtain ⟨hsearch, hrest⟩ := Text.takeWhile_dropWhile_append hinside hend
    simp only [List.cons_append] at hsearch hrest ⊢
    rw [hsearch, hrest, hline]

/-! ### Parts in form -/

/-- A path in the form that identifiers keep it in. -/
def pathInForm (s : Spelling) (p : Text) : Text :=
  if p = [] then []
  else Spelling.respell s.unified s.separator
    (Path.normalize (Spelling.respell s.unified ['/'] p))

/-- A query in the form that identifiers keep it in. -/
def queryInForm (q : Text) : Text := if q = [] then [] else '?' :: q.dropWhile isQueryMark

theorem setPath_eq (u : Uri) (p : Text) :
    u.setPath p = { u with path := pathInForm u.spelling p } := by
  unfold setPath pathInForm
  split <;> rfl

theorem setQuery_eq (u : Uri) (q : Text) : u.setQuery q = { u with search := queryInForm q } := by
  unfold setQuery addQuery queryInForm
  split <;> rfl

/-- The parts of an identifier are what it is cut into, the path and the query in form. -/
theorem parse_eq (s : Spelling) (t : Text) :
    parse s t = ⟨s, pathInForm s (split t).1, queryInForm (split t).2.1, (split t).2.2⟩ := by
  unfold parse
  simp only [setPath_eq, setQuery_eq]
  rfl

theorem spelling_parse (s : Spelling) (t : Text) : (parse s t).spelling = s := by
  rw [parse_eq]

theorem pathInForm_ne_nil {s : Spelling} (hsep : s.separator ≠ []) {p : Text} (hp : p ≠ []) :
    pathInForm s p ≠ [] := by
  rw [pathInForm, if_neg hp, Ne, Spelling.respell_eq_nil s.unified hsep]
  unfold Path.normalize
  dsimp only
  split
  · decide
  · assumption

/-- A path in form stays as it is. -/
theorem pathInForm_pathInForm {s : Spelling} {c : Char} (hsep : s.separator = [c])
    (hc : Spelling.isSeparator c = true) (p : Text) :
    pathInForm s (pathInForm s p) = pathInForm s p := by
  by_cases hp : p = []
  · rw [hp]
    rfl
  · have hne : pathInForm s p ≠ [] := pathInForm_ne_nil (by simp [hsep]) hp
    rw [pathInForm, if_neg hne, pathInForm, if_neg hp, hsep, Spelling.respell_respell hc,
      Spelling.respell_normalize, Path.normalize_normalize]

/-- A query in form stays as it is. -/
theorem queryInForm_queryInForm (q : Text) : queryInForm (queryInForm q) = queryInForm q := by
  by_cases hq : q = []
  · rw [hq]
    rfl
  · have hmark : isQueryMark '?' = true := by decide
    simp [queryInForm, hq, hmark, List.dropWhile_idempotent]

theorem mem_pathInForm {s : Spelling} {p : Text} {c : Char} (h : c ∈ pathInForm s p) :
    c ∈ s.separator ∨ c = '/' ∨ c = '.' ∨ c ∈ p := by
  unfold pathInForm at h
  split at h
  · cases h
  · rcases Spelling.mem_respell h with h | h
    · exact .inl h
    · rcases Path.mem_normalize h with h | h | h
      · exact .inr (.inl h)
      · exact .inr (.inr (.inl h))
      · rcases Spelling.mem_respell h with h | h
        · exact .inr (.inl (List.mem_singleton.mp h))
        · exact .inr (.inr (.inr h))

theorem mem_of_mem_queryInForm {q : Text} {c : Char} (hc : c ≠ '?') (h : c ∈ queryInForm q) :
    c ∈ q := by
  unfold queryInForm at h
  split at h
  · cases h
  · rcases List.mem_cons.mp h with rfl | h
    · exact absurd rfl hc
    · exact List.dropWhile_subset _ h

theorem queryInForm_opens (q : Text) : Text.OpensWith '?' (queryInForm q) := by
  unfold queryInForm
  split
  · exact .nil '?'
  · exact .cons '?' _

/-! ### What an identifier is cut into -/

/-- An identifier with no path has no other part either. -/
theorem split_of_path_nil {t : Text} (h : (split t).1 = []) : split t = ([], [], []) := by
  unfold split at h ⊢
  dsimp only at h ⊢
  split
  · rfl
  · rename_i hpath
    rw [if_neg hpath] at h
    exact absurd h hpath

/-- The parts that an identifier with a path is cut into can be told apart. -/
theorem separable_split (s : Spelling) {t : Text} (h : (split t).1 ≠ []) :
    Separable ⟨s, (split t).1, (split t).2.1, (split t).2.2⟩ := by
  have hpath : t.takeWhile (!isSuffixMark ·) ≠ [] := by
    intro hnil
    exact h (by simp [split, hnil])
  have hplain : ∀ c ∈ t.takeWhile (!isSuffixMark ·), isSuffixMark c = false := by
    intro c hc
    simpa using List.mem_takeWhile_imp hc
  have hline (rest : Text) : '\n' ∉ rest.takeWhile (· ≠ '\n') := by
    intro hc
    simpa using List.mem_takeWhile_imp hc
  -- What follows the path starts with one of the two marks, and the query ends before the other.
  have hmark : ∀ c, (t.dropWhile (!isSuffixMark ·)).head? = some c → c = '?' ∨ c = '#' := by
    intro c hc
    have hstop := List.head?_dropWhile_not (!isSuffixMark ·) t
    rw [hc] at hstop
    simpa [isSuffixMark, or_iff_not_imp_left] using hstop
  rw [split, if_neg hpath]
  cases hsuffix : t.dropWhile (!isSuffixMark ·) with
  | nil => exact ⟨hpath, hplain, .nil '?', by simp, .nil '#', by simp⟩
  | cons c cs =>
    rcases hmark c (by rw [hsuffix]; rfl) with rfl | rfl
    · have hsign : Text.OpensWith '#' (('?' :: cs).dropWhile (· ≠ '#')) := by
        intro c hc
        have hstop := List.head?_dropWhile_not (fun c => decide (c ≠ '#')) ('?' :: cs)
        rw [hc] at hstop
        simpa using hstop
      have hquery : '#' ∉ ('?' :: cs).takeWhile (· ≠ '#') := by
        intro hc
        simpa using List.mem_takeWhile_imp hc
      have hopens : Text.OpensWith '?' (('?' :: cs).takeWhile (· ≠ '#')) :=
        (Text.OpensWith.cons '?' cs).takeWhile _
      exact ⟨hpath, hplain, hopens, hquery, hsign.takeWhile (· ≠ '\n'), hline _⟩
    · have hopens : Text.OpensWith '#' (('#' :: cs).takeWhile (· ≠ '\n')) :=
        (Text.OpensWith.cons '#' cs).takeWhile _
      exact ⟨hpath, hplain, .nil '?', List.not_mem_nil, hopens, hline ('#' :: cs)⟩

theorem not_mark_of_isSeparator {c : Char} (hc : Spelling.isSeparator c = true) :
    isSuffixMark c = false := by
  rw [Spelling.isSeparator, Bool.or_eq_true, decide_eq_true_eq, decide_eq_true_eq] at hc
  rcases hc with rfl | rfl <;> decide

/-- So can the parts of an identifier, which are those parts in form. -/
theorem separable_parse {s : Spelling} {c : Char} (hsep : s.separator = [c])
    (hc : Spelling.isSeparator c = true) {t : Text} (h : (parse s t).path ≠ []) :
    (parse s t).Separable := by
  rw [parse_eq] at h ⊢
  have hpath : (split t).1 ≠ [] := by
    intro hnil
    exact h (by rw [hnil]; rfl)
  have hsplit := separable_split s hpath
  refine ⟨h, ?_, queryInForm_opens _, ?_, hsplit.fragment_opens, hsplit.fragment_plain⟩
  · intro d hd
    rcases mem_pathInForm hd with hd | rfl | rfl | hd
    · rw [hsep, List.mem_singleton] at hd
      exact not_mark_of_isSeparator (hd ▸ hc)
    · decide
    · decide
    · exact hsplit.path_plain d hd
  · intro hsign
    exact hsplit.search_plain (mem_of_mem_queryInForm (by decide) hsign)

theorem parse_of_path_nil {s : Spelling} (hsep : s.separator ≠ []) {t : Text}
    (h : (parse s t).path = []) : parse s t = ⟨s, [], [], []⟩ := by
  rw [parse_eq] at h ⊢
  by_cases hpath : (split t).1 = []
  · rw [split_of_path_nil hpath]
    rfl
  · exact absurd h (pathInForm_ne_nil hsep hpath)

/-- Separable parts are found again up to their form. -/
theorem Separable.parse_render_eq {u : Uri} (h : u.Separable) :
    parse u.spelling u.render
      = { u with path := pathInForm u.spelling u.path, search := queryInForm u.search } := by
  rw [parse_eq, h.split_render]

/-- The path of an identifier is in form. -/
theorem pathInForm_path_parse {s : Spelling} {c : Char} (hsep : s.separator = [c])
    (hc : Spelling.isSeparator c = true) (t : Text) :
    pathInForm s (parse s t).path = (parse s t).path := by
  rw [parse_eq]
  exact pathInForm_pathInForm hsep hc _

/-- The query of an identifier is in form. -/
theorem queryInForm_search_parse (s : Spelling) (t : Text) :
    queryInForm (parse s t).search = (parse s t).search := by
  rw [parse_eq]
  exact queryInForm_queryInForm _

theorem parse_render_parse {s : Spelling} {c : Char} (hsep : s.separator = [c])
    (hc : Spelling.isSeparator c = true) (t : Text) :
    parse s (parse s t).render = parse s t := by
  by_cases h : (parse s t).path = []
  · rw [parse_of_path_nil (by simp [hsep]) h]
    rfl
  · have hparts := (separable_parse hsep hc h).parse_render_eq
    rw [spelling_parse, pathInForm_path_parse hsep hc, queryInForm_search_parse] at hparts
    rw [hparts, parse_eq]

/-- What was taken apart and put together is taken apart into the same parts, so the portable form
of an identifier is its own portable form. -/
theorem parse_render {c : Char} (hc : Spelling.isSeparator c = true) (flag : Option Bool)
    (setting : Option Text) (t : Text) :
    let unified := Spelling.isUnified flag setting
    let s : Spelling := { separator := [c], unified }
    parse s (parse s t).render = parse s t ∧
      portable unified (portable unified t) = portable unified t := by
  intro unified s
  refine ⟨parse_render_parse rfl hc t, ?_⟩
  have hslash : parse { unified } (parse { unified } t).render = parse { unified } t :=
    parse_render_parse rfl (by decide : Spelling.isSeparator '/' = true) t
  exact congrArg render hslash

/-- An identifier with separators and marks of all kinds, its path spelled with backslashes. -/
theorem parse_render_mixed :
    let t : Text := "//a\\b/../c/?&?x&y#f\nz"
    let s : Spelling := { separator := ['\\'], unified := Spelling.isUnified none (some "true") }
    Spelling.isSeparator '\\' = true ∧ parse s t = ⟨s, "\\a\\c", "?x&y", "#f"⟩ ∧
      parse s (parse s t).render = parse s t ∧
      portable s.unified (portable s.unified t) = portable s.unified t := by
  intro t s
  have hc : Spelling.isSeparator '\\' = true := by decide
  exact ⟨hc, by decide +kernel, parse_render hc none (some "true") t⟩

end Uri

end StyleImport
