/-
Backslashes that come back.

A replacement is a scan from left to right, so what it inserts might form another occurrence of its
pattern together with what it keeps.  The placeholder for a backslash starts with a character that
it does not hold a second time, and it holds no backslash: nothing new is formed on either way.

* `Text.scan_cases` — induction along a scan;
* `Text.not_infix_replaceAll` — what was replaced by a foreign character occurs nowhere afterwards;
* `Stylesheet.exists_of_preserve_split` — every placeholder in a preserved text is a backslash;
* `Stylesheet.preserve_round_trip` — the texts that come back are those without the placeholder.
-/
import StyleImport.Proofs.Stylesheet.Literal
import StyleImport.Stylesheet.Literal

namespace StyleImport

namespace Text

/-! ### Scans -/

section Scan

variable {pattern replacement : Text}

theorem replaceFrom_length_append (skipped t : Text) :
    replaceFrom pattern replacement skipped.length (skipped ++ t)
      = replaceFrom pattern replacement 0 t := by
  induction skipped with
  | nil => rfl
  | cons c skipped ih => exact ih

/-- A scan replaces the pattern where it stands in front. -/
theorem replaceFrom_pattern_append (hne : pattern ≠ []) (t : Text) :
    replaceFrom pattern replacement 0 (pattern ++ t)
      = replacement ++ replaceFrom pattern replacement 0 t := by
  obtain ⟨c, cs, rfl⟩ := List.exists_cons_of_ne_nil hne
  have hfront : (c :: cs).isPrefixOf (c :: (cs ++ t)) = true :=
    List.isPrefixOf_iff_prefix.mpr (List.prefix_append (c :: cs) t)
  rw [List.cons_append, replaceFrom, if_pos hfront, List.length_cons, Nat.add_sub_cancel,
    replaceFrom_length_append]

/-- A scan keeps a character where the pattern does not start. -/
theorem replaceFrom_cons {c : Char} {t : Text} (h : ¬ pattern <+: c :: t) :
    replaceFrom pattern replacement 0 (c :: t) = c :: replaceFrom pattern replacement 0 t := by
  rw [replaceFrom, if_neg (fun hfront => h (List.isPrefixOf_iff_prefix.mp hfront))]

/-- What a scan comes to next: the end, the pattern, or a character where it does not start. -/
theorem scan_cases {motive : Text → Prop} (hne : pattern ≠ []) (nil : motive [])
    (found : ∀ t, motive t → motive (pattern ++ t))
    (kept : ∀ c t, ¬ pattern <+: c :: t → motive t → motive (c :: t)) (t : Text) : motive t := by
  -- A scan steps over a whole pattern at once, so the induction is on the length.
  induction hlength : t.length using Nat.strongRecOn generalizing t with
  | ind n ih =>
    cases t with
    | nil => exact nil
    | cons c t =>
      by_cases hfront : pattern <+: c :: t
      · obtain ⟨t', ht'⟩ := hfront
        have hpos : 0 < pattern.length := List.length_pos_iff.mpr hne
        have hsum : pattern.length + t'.length = n := by
          rw [← hlength, ← ht', List.length_append]
        rw [← ht']
        exact found t' (ih t'.length (by omega) t' rfl)
      · have hshorter : t.length < n := by
          rw [← hlength, List.length_cons]
          omega
        exact kept c t hfront (ih t.length hshorter t rfl)

variable {mark : Char}

/-- What a scan leaves without the character that it inserts was there before. -/
theorem exists_of_replaceFrom (hne : pattern ≠ []) {t w rest : Text} (hw : mark ∉ w)
    (h : replaceFrom pattern [mark] 0 t = w ++ rest) : ∃ t', t = w ++ t' := by
  induction w generalizing t with
  | nil => exact ⟨t, rfl⟩
  | cons c w ih =>
    rw [List.mem_cons, not_or] at hw
    by_cases hfront : pattern <+: t
    · obtain ⟨t', rfl⟩ := hfront
      rw [replaceFrom_pattern_append hne] at h
      exact absurd (List.cons.inj h).1 hw.1
    · cases t with
      | nil => cases h
      | cons d t =>
        rw [replaceFrom_cons hfront] at h
        obtain ⟨rfl, hrest⟩ := List.cons.inj h
        obtain ⟨t', rfl⟩ := ih hw.2 hrest
        exact ⟨t', rfl⟩

/-- A pattern that is replaced by a character that it does not hold occurs nowhere afterwards. -/
theorem not_infix_replaceAll (hne : pattern ≠ []) (hmark : mark ∉ pattern) (t : Text) :
    ¬ pattern <:+: replaceAll pattern [mark] t := by
  rw [replaceAll, if_neg hne]
  induction t using scan_cases hne with
  | nil => exact fun h => hne (List.infix_nil.mp h)
  | found t ih =>
    rw [replaceFrom_pattern_append hne]
    intro h
    rcases List.infix_cons_iff.mp h with hfront | hlater
    · obtain ⟨c, cs, rfl⟩ := List.exists_cons_of_ne_nil hne
      exact hmark ((List.cons_prefix_cons.mp hfront).1 ▸ List.mem_cons_self)
    · exact ih hlater
  | kept c t hkept ih =>
    intro h
    rw [replaceFrom_cons hkept] at h
    rcases List.infix_cons_iff.mp h with ⟨rest, hrest⟩ | hlater
    -- A pattern that starts here holds nothing inserted, so it was here before the scan.
    · rw [← replaceFrom_cons hkept] at hrest
      obtain ⟨t', ht'⟩ := exists_of_replaceFrom hne hmark hrest.symm
      exact hkept ⟨t', ht'.symm⟩
    · exact ih hlater

end Scan

end Text

namespace Stylesheet

/-! ### The placeholder -/

theorem placeholder_ne_nil : placeholder ≠ [] := by decide

theorem backslash_not_mem_placeholder : '\\' ∉ placeholder := by decide

/-- The placeholder starts with a character that it does not hold again. -/
theorem placeholder_eq_cons : placeholder = '<' :: placeholder.tail ∧ '<' ∉ placeholder.tail := by
  decide

theorem preserve_backslash (t : Text) : preserve ('\\' :: t) = placeholder ++ preserve t := rfl

theorem preserve_cons {c : Char} (h : c ≠ '\\') (t : Text) :
    preserve (c :: t) = c :: preserve t := by
  simp [preserve, h]

theorem restore_placeholder (t : Text) : restore (placeholder ++ t) = '\\' :: restore t := by
  unfold restore Text.replaceAll
  rw [if_neg placeholder_ne_nil, if_neg placeholder_ne_nil,
    Text.replaceFrom_pattern_append placeholder_ne_nil]
  rfl

theorem restore_cons {c : Char} {t : Text} (h : ¬ placeholder <+: c :: t) :
    restore (c :: t) = c :: restore t := by
  unfold restore Text.replaceAll
  rw [if_neg placeholder_ne_nil, if_neg placeholder_ne_nil, Text.replaceFrom_cons h]

theorem backslash_not_mem_preserve (t : Text) : '\\' ∉ preserve t := by
  intro h
  obtain ⟨c, -, hc⟩ := List.mem_flatMap.mp h
  split at hc
  · exact backslash_not_mem_placeholder hc
  · rename_i hne
    exact hne (List.mem_singleton.mp hc).symm

/-- What stands in a preserved text without the character that starts a placeholder was there
before. -/
theorem exists_of_preserve {t w rest : Text} (hw : '<' ∉ w) (h : preserve t = w ++ rest) :
    ∃ t', t = w ++ t' := by
  induction w generalizing t with
  | nil => exact ⟨t, rfl⟩
  | cons c w ih =>
    rw [List.mem_cons, not_or] at hw
    cases t with
    | nil => cases h
    | cons d t =>
      by_cases hd : d = '\\'
      · subst hd
        rw [preserve_backslash, placeholder_eq_cons.1] at h
        exact absurd (List.cons.inj h).1 hw.1
      · rw [preserve_cons hd] at h
        obtain ⟨rfl, hrest⟩ := List.cons.inj h
        obtain ⟨t', rfl⟩ := ih hw.2 hrest
        exact ⟨t', rfl⟩

/-- A placeholder that starts with a kept character was there before. -/
theorem prefix_of_prefix_preserve {c : Char} {t : Text} (h : placeholder <+: c :: preserve t) :
    placeholder <+: c :: t := by
  obtain ⟨rest, hrest⟩ := h
  obtain ⟨hcons, htail⟩ := placeholder_eq_cons
  rw [hcons, List.cons_append] at hrest
  obtain ⟨hc, hrest⟩ := List.cons.inj hrest
  obtain ⟨t', rfl⟩ := exists_of_preserve htail hrest.symm
  exact ⟨t', by rw [hcons, ← hc, List.cons_append, List.tail_cons]⟩

/-! ### There and back -/

theorem restore_preserve {t : Text} (h : ¬ placeholder <:+: t) : restore (preserve t) = t := by
  induction t with
  | nil => rfl
  | cons c t ih =>
    have ht : ¬ placeholder <:+: t := fun hinfix => h (List.infix_cons hinfix)
    by_cases hc : c = '\\'
    · subst hc
      rw [preserve_backslash, restore_placeholder, ih ht]
    · have hkept : ¬ placeholder <+: c :: preserve t := fun hfront =>
        h (prefix_of_prefix_preserve hfront).isInfix
      rw [preserve_cons hc, restore_cons hkept, ih ht]

/-- Two placeholders overlap only if they are one. -/
theorem placeholder_overlap {before back rest after : Text} (hsplit : placeholder = before ++ back)
    (hback : placeholder ++ after = back ++ rest) : before = [] ∨ back = [] := by
  obtain ⟨hcons, htail⟩ := placeholder_eq_cons
  cases before with
  | nil => exact .inl rfl
  | cons c before =>
    cases back with
    | nil => exact .inr rfl
    | cons d back =>
      rw [hcons] at hsplit hback
      obtain ⟨-, hrest⟩ := List.cons.inj hsplit
      obtain ⟨rfl, -⟩ := List.cons.inj hback
      exact absurd (hrest ▸ by simp : '<' ∈ placeholder.tail) htail

/-- Every placeholder in the preserved form of a text without one stands for a backslash. -/
theorem exists_of_preserve_split {t before after : Text} (h : ¬ placeholder <:+: t)
    (hsplit : preserve t = before ++ (placeholder ++ after)) :
    ∃ front back, t = front ++ '\\' :: back ∧ before = preserve front ∧ after = preserve back := by
  induction t generalizing before with
  | nil =>
    have hlength := congrArg List.length hsplit
    have hpos : 0 < placeholder.length := by decide
    rw [show preserve [] = [] from rfl, List.length_append, List.length_append,
      List.length_nil] at hlength
    omega
  | cons c t ih =>
    have ht : ¬ placeholder <:+: t := fun hinfix => h (List.infix_cons hinfix)
    by_cases hc : c = '\\'
    · subst hc
      have hlater (before' : Text) (hbefore : before = placeholder ++ before')
          (hrest : preserve t = before' ++ (placeholder ++ after)) :
          ∃ front back, '\\' :: t = front ++ '\\' :: back ∧ before = preserve front ∧
            after = preserve back := by
        obtain ⟨front, back, rfl, rfl, rfl⟩ := ih ht hrest
        exact ⟨'\\' :: front, back, rfl, hbefore, rfl⟩
      rw [preserve_backslash] at hsplit
      -- The first placeholder ends before the given one starts, or the two overlap.
      rcases List.append_eq_append_iff.mp hsplit with ⟨before', hbefore, hrest⟩ |
          ⟨back, hfront, hback⟩
      · exact hlater before' hbefore hrest
      · rcases placeholder_overlap hfront hback with rfl | rfl
        · rw [List.nil_append] at hfront
          subst hfront
          exact ⟨[], t, rfl, rfl, List.append_cancel_left hback⟩
        · rw [List.append_nil] at hfront
          exact hlater [] (by rw [hfront, List.append_nil]) hback.symm
    · rw [preserve_cons hc] at hsplit
      cases before with
      | nil =>
        -- A placeholder that starts with a kept character was in the text itself.
        have hfront : placeholder <+: c :: preserve t := ⟨after, hsplit.symm⟩
        exact absurd (prefix_of_prefix_preserve hfront).isInfix h
      | cons d before =>
        obtain ⟨rfl, hrest⟩ := List.cons.inj hsplit
        obtain ⟨front, back, rfl, rfl, rfl⟩ := ih ht hrest
        exact ⟨c :: front, back, rfl, (preserve_cons hc front).symm, rfl⟩

/-- **Backslashes come back.**  Preserving replaces the backslashes of a text by placeholders and
leaves none.  Restoring then gives back the texts without a placeholder and no other: in these, each
placeholder that is found after preserving is a backslash of the text, so none is formed from parts
of one, and a placeholder that was there before is lost. -/
theorem preserve_round_trip (t : Text) :
    preserve t = Text.replaceAll ['\\'] placeholder t ∧
    '\\' ∉ preserve t ∧
    (restore (preserve t) = t ↔ ¬ placeholder <:+: t) ∧
    (¬ placeholder <:+: t → ∀ before after, preserve t = before ++ (placeholder ++ after) →
      ∃ front back, t = front ++ '\\' :: back ∧ before = preserve front ∧ after = preserve back) := by
  refine ⟨(Text.replaceAll_singleton '\\' placeholder t).symm, backslash_not_mem_preserve t,
    ⟨fun hback hinfix => ?_, restore_preserve⟩, fun h before after => exists_of_preserve_split h⟩
  have hnone : ¬ placeholder <:+: restore (preserve t) :=
    Text.not_infix_replaceAll placeholder_ne_nil backslash_not_mem_placeholder (preserve t)
  exact hnone (hback.symm ▸ hinfix)

/-- A backslash in the middle of a placeholder: its own placeholder is the only one. -/
theorem preserve_round_trip_inside_placeholder :
    let t : Text := ['<', 'B', 'A', 'C', 'K', '\\', 'S', 'L', 'A', 'S', 'H', '>']
    let before : Text := ['<', 'B', 'A', 'C', 'K']
    let after : Text := ['S', 'L', 'A', 'S', 'H', '>']
    ¬ placeholder <:+: t ∧ restore (preserve t) = t ∧
      preserve t = before ++ (placeholder ++ after) ∧
      ∃ front back, t = front ++ '\\' :: back ∧ before = preserve front ∧ after = preserve back := by
  intro t before after
  have hnone : ¬ placeholder <:+: t := by decide
  have hsplit : preserve t = before ++ (placeholder ++ after) := by decide
  obtain ⟨-, -, hback, hplaces⟩ := preserve_round_trip t
  exact ⟨hnone, hback.mpr hnone, hsplit, hplaces hnone before after hsplit⟩

end Stylesheet

end StyleImport
