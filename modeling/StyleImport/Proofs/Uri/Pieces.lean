/-
Queries built piece by piece.

A piece loses the marks in front of it and gets one of its own: a question mark if it is the first
piece, an ampersand if it is any other.  So the query of several pieces starts with a question mark,
and their texts follow in order.  A reader of the query drops all marks in front of it; if the first
piece is nothing but marks, the ampersand of the second one goes with them.

* `Uri.queryOf` — the query of several pieces;
* `Uri.foldl_addQuery` — adding the pieces one after the other leads there;
* `Uri.query_of_pieces` — the parts are found again unless the first of several pieces has no text.
-/
import StyleImport.Proofs.Uri.RoundTrip

namespace StyleImport

namespace Uri

/-- The texts of pieces: what follows the marks in front of each, empty pieces left out. -/
def textsOf (pieces : List Text) : List Text :=
  (pieces.filter (· ≠ [])).map (List.dropWhile isQueryMark)

/-- The query of several pieces: their texts behind one mark each. -/
def queryOf (pieces : List Text) : Text :=
  if textsOf pieces = [] then [] else '?' :: Text.joinWith ['&'] (textsOf pieces)

/-- Whether there are several pieces and the first of them has no text. -/
def OpensBare (pieces : List Text) : Prop :=
  ∃ second others, textsOf pieces = [] :: second :: others

/-! ### Adding pieces -/

theorem textsOf_concat (pieces : List Text) (piece : Text) :
    textsOf (pieces ++ [piece])
      = if piece = [] then textsOf pieces
        else textsOf pieces ++ [piece.dropWhile isQueryMark] := by
  by_cases hpiece : piece = [] <;> simp [textsOf, hpiece]

theorem queryOf_eq_nil {pieces : List Text} : queryOf pieces = [] ↔ textsOf pieces = [] := by
  unfold queryOf
  split <;> simp_all

theorem queryOf_singleton (piece : Text) : queryOf [piece] = queryInForm piece := by
  by_cases hpiece : piece = [] <;>
    simp [queryOf, textsOf, queryInForm, hpiece, Text.joinWith_singleton]

/-- One more piece goes behind the others. -/
theorem queryOf_concat (pieces : List Text) (piece : Text) :
    queryOf (pieces ++ [piece])
      = if piece = [] then queryOf pieces
        else queryOf pieces
          ++ (if queryOf pieces = [] then '?' else '&') :: piece.dropWhile isQueryMark := by
  by_cases hpiece : piece = []
  · rw [if_pos hpiece, queryOf, textsOf_concat, if_pos hpiece, ← queryOf]
  · rw [if_neg hpiece, queryOf, textsOf_concat, if_neg hpiece, if_neg (by simp)]
    by_cases hnil : textsOf pieces = []
    · rw [queryOf_eq_nil.mpr hnil, if_pos rfl, hnil, List.nil_append, List.nil_append,
        Text.joinWith_singleton]
    · rw [if_neg (mt queryOf_eq_nil.mp hnil), queryOf, if_neg hnil,
        Text.joinWith_concat _ hnil, List.cons_append]

/-- Adding pieces one after the other changes the query alone. -/
theorem foldl_addQuery {u : Uri} {earlier : List Text} (h : u.search = queryOf earlier)
    (pieces : List Text) :
    pieces.foldl addQuery u = { u with search := queryOf (earlier ++ pieces) } := by
  induction pieces generalizing u earlier with
  | nil => rw [List.append_nil, ← h, List.foldl_nil]
  | cons piece pieces ih =>
    have hsearch : (u.addQuery piece).search = queryOf (earlier ++ [piece]) := by
      rw [queryOf_concat, ← h, addQuery]
      split <;> rfl
    have hrest : u.addQuery piece = { u with search := (u.addQuery piece).search } := by
      unfold addQuery
      split <;> rfl
    rw [List.foldl_cons, ih hsearch, hrest, List.append_assoc, List.singleton_append]

/-! ### Reading the query again -/

theorem queryOf_opens (pieces : List Text) : Text.OpensWith '?' (queryOf pieces) := by
  unfold queryOf
  split
  · exact .nil '?'
  · exact .cons '?' _

/-- A query has no characters of its own but the two marks. -/
theorem mem_queryOf {pieces : List Text} {c : Char} (h : c ∈ queryOf pieces) :
    c = '?' ∨ c = '&' ∨ ∃ piece ∈ pieces, c ∈ piece := by
  unfold queryOf at h
  split at h
  · cases h
  · rcases List.mem_cons.mp h with h | h
    · exact .inl h
    · rcases Path.mem_joinWith h with h | ⟨text, htext, hc⟩
      · exact .inr (.inl h)
      · obtain ⟨piece, hpiece, rfl⟩ := List.mem_map.mp htext
        exact .inr (.inr ⟨piece, (List.mem_filter.mp hpiece).1, List.dropWhile_subset _ hc⟩)

/-- A text has no mark in front. -/
theorem dropWhile_append_of_mem_textsOf {pieces : List Text} {text : Text}
    (h : text ∈ textsOf pieces) (hne : text ≠ []) (t : Text) :
    (text ++ t).dropWhile isQueryMark = text ++ t := by
  obtain ⟨piece, -, rfl⟩ := List.mem_map.mp h
  have hhead := List.head?_dropWhile_not isQueryMark piece
  obtain ⟨c, cs, hcons⟩ := List.exists_cons_of_ne_nil hne
  rw [hcons] at hhead ⊢
  have hc : isQueryMark c = false := hhead
  simp [hc]

/-- A query is in form unless the first of several pieces has no text. -/
theorem queryInForm_queryOf (pieces : List Text) :
    queryInForm (queryOf pieces) = queryOf pieces ↔ ¬ OpensBare pieces := by
  unfold OpensBare
  cases htexts : textsOf pieces with
  | nil => simp [queryOf_eq_nil.mpr htexts, queryInForm]
  | cons first others =>
    have hmark : isQueryMark '?' = true := by decide
    have hquery : queryOf pieces = '?' :: Text.joinWith ['&'] (first :: others) := by
      rw [queryOf, htexts, if_neg (by simp)]
    have hform : queryInForm (queryOf pieces) = queryOf pieces ↔
        (Text.joinWith ['&'] (first :: others)).dropWhile isQueryMark
          = Text.joinWith ['&'] (first :: others) := by
      rw [hquery, queryInForm, if_neg (by simp), List.dropWhile_cons_of_pos hmark,
        List.cons.injEq, and_iff_right rfl]
    rw [hform]
    by_cases hfirst : first = []
    · subst hfirst
      cases others with
      | nil => simp [Text.joinWith_singleton]
      | cons second others =>
        -- The ampersand in front is dropped with the question mark.
        have hand : isQueryMark '&' = true := by decide
        rw [Text.joinWith_cons _ (by simp), List.nil_append, List.dropWhile_cons_of_pos hand]
        refine iff_of_false (fun hsame => ?_) (by simp)
        have hshorter := (List.dropWhile_suffix (l := Text.joinWith ['&'] (second :: others))
          isQueryMark).length_le
        rw [hsame, List.length_cons] at hshorter
        omega
    · obtain ⟨t, ht⟩ : ∃ t, Text.joinWith ['&'] (first :: others) = first ++ t := by
        cases others with
        | nil => exact ⟨[], by rw [Text.joinWith_singleton, List.append_nil]⟩
        | cons second others => exact ⟨_, Text.joinWith_cons first (by simp)⟩
      rw [ht]
      have hmem : first ∈ textsOf pieces := htexts ▸ List.mem_cons_self
      exact iff_of_true (dropWhile_append_of_mem_textsOf hmem hfirst t) (by simp [hfirst])

/-- An identifier that is given pieces of a query has their texts in its query, in order and behind
one mark each.  Put together and taken apart it has the same path and the same fragment, and the
same query unless the first of several pieces has no text. -/
theorem query_of_pieces {c : Char} (hc : Spelling.isSeparator c = true) (unified : Bool) {t : Text}
    (hpath : (parse { separator := [c], unified } t).path ≠ []) {pieces : List Text}
    (hpieces : ∀ piece ∈ pieces, '#' ∉ piece) :
    let s : Spelling := { separator := [c], unified }
    let u := parse s t
    let v := pieces.foldl addQuery u
    v = { u with search := queryOf (u.search :: pieces) } ∧ Text.OpensWith '?' v.search ∧
      (parse s v.render).path = v.path ∧ (parse s v.render).fragment = v.fragment ∧
      ((parse s v.render).search = v.search ↔ ¬ OpensBare (u.search :: pieces)) := by
  intro s u v
  have hparts : u.Separable := separable_parse rfl hc hpath
  have hown : u.search = queryOf [u.search] :=
    (queryInForm_search_parse s t).symm.trans (queryOf_singleton _).symm
  have hv : v = { u with search := queryOf (u.search :: pieces) } := foldl_addQuery hown pieces
  have hsign : '#' ∉ queryOf (u.search :: pieces) := by
    intro hmem
    rcases mem_queryOf hmem with h | h | ⟨piece, hpiece, h⟩
    · exact absurd h (by decide)
    · exact absurd h (by decide)
    · rcases List.mem_cons.mp hpiece with rfl | hpiece
      · exact hparts.search_plain h
      · exact hpieces piece hpiece h
  have hopens : Text.OpensWith '?' v.search := hv ▸ queryOf_opens _
  have hseparable : v.Separable := by
    rw [hv] at hopens ⊢
    exact ⟨hpath, hparts.path_plain, hopens, hsign, hparts.fragment_opens, hparts.fragment_plain⟩
  have hspelling : v.spelling = s := hv ▸ spelling_parse s t
  have hsettled : pathInForm s v.path = v.path := hv ▸ pathInForm_path_parse rfl hc t
  have hagain := hseparable.parse_render_eq
  rw [hspelling, hsettled] at hagain
  rw [hagain]
  refine ⟨hv, hopens, rfl, rfl, ?_⟩
  rw [hv]
  exact queryInForm_queryOf _

/-- Three pieces behind a query, one of them empty and the others with marks in front. -/
theorem query_of_mixed_pieces :
    let s : Spelling := { separator := ['/'], unified := true }
    let u := parse s "a?x#f"
    let pieces : List Text := ["&&y", "", "?z=1&w"]
    let v := pieces.foldl addQuery u
    u.path ≠ [] ∧ (∀ piece ∈ pieces, '#' ∉ piece) ∧ ¬ OpensBare (u.search :: pieces) ∧
      v.search = "?x&y&z=1&w" ∧ (parse s v.render).search = v.search := by
  intro s u pieces v
  have hpath : u.path ≠ [] := by decide +kernel
  have hpieces : ∀ piece ∈ pieces, '#' ∉ piece := by decide +kernel
  have hbare : ¬ OpensBare (u.search :: pieces) := by
    have htexts : textsOf (u.search :: pieces) = ["x".toList, "y".toList, "z=1&w".toList] := by
      decide +kernel
    rintro ⟨second, others, h⟩
    rw [htexts, List.cons.injEq] at h
    exact absurd h.1 (by decide)
  obtain ⟨-, -, -, -, hsearch⟩ := query_of_pieces (by decide : Spelling.isSeparator '/' = true)
    true hpath hpieces
  exact ⟨hpath, hpieces, hbare, by decide +kernel, hsearch.mpr hbare⟩

/-- The first of two pieces is a mark alone: the second one's ampersand is lost on the way. -/
theorem bare_piece_swallows_mark :
    let u := parse {} ['a']
    let pieces : List Text := [['?'], ['b']]
    let v := pieces.foldl addQuery u
    u.path ≠ [] ∧ (∀ piece ∈ pieces, '#' ∉ piece) ∧ v.search = ['?', '&', 'b'] ∧
      (parse {} v.render).search = ['?', 'b'] := by
  decide

end Uri

end StyleImport
