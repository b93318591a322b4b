/-
Backslashes for slashes in identifiers.

Where separators are unified a backslash separates names like a slash, but not in front of the first
slash: the module of an identifier is found by the text in front of its first slashes, as it is
written.

* `ModuleName.Behind.respelled` — what stands behind one name is respelled like the identifier;
* `Surroundings.moduleOf_respelled` — the module is the same if the slash behind its name is kept;
* `Surroundings.outcome_respelled` — so the import is the same if its module is;
* `Surroundings.module_not_found_behind_backslash` — a backslash behind the module's name hides it.
-/
import StyleImport.Proofs.Import.SameImport

namespace StyleImport

namespace Registration

/-- The identifiers of registrations are made of the characters of tokens, parentheses and a line
end. -/
theorem not_mem_of_token? {identifier token : Text} (h : token? identifier = some token) {c : Char}
    (hc : continuesToken c = false) (hopen : c ≠ '(') (hclose : c ≠ ')') (hend : c ≠ '\n') :
    c ∉ identifier := by
  have hline : ∀ {t : Text}, c ∈ t → c ∈ dropLineEnd t := by
    intro t ht
    unfold dropLineEnd
    split
    · rename_i hlast
      rw [← List.dropLast_append_getLast? '\n' hlast] at ht
      simpa [hend] using ht
    · exact ht
  intro hmem
  have hmem := hline hmem
  unfold token? at h
  split at h
  · rename_i cs hcs
    split at h
    · rename_i htoken
      rw [Bool.and_eq_true, decide_eq_true_eq] at htoken
      obtain ⟨hlast, htoken⟩ := htoken
      rw [hcs, ← List.dropLast_append_getLast? ')' hlast] at hmem
      have hstart : ∀ d, startsToken d = true → c ≠ d := by
        rintro d hd rfl
        simp [continuesToken, hd] at hc
      have hchars : c ∉ cs.dropLast := fun hd => by
        rw [continuesToken_of_isToken htoken c hd] at hc
        cases hc
      have hf := hstart 'f' (by decide)
      have hs := hstart 's' (by decide)
      simp only [List.mem_cons, List.mem_append, List.not_mem_nil, hf, hs, hopen, hclose, or_false,
        false_or] at hmem
      exact hchars hmem
    · cases h
  · cases h

end Registration

namespace Spelling

theorem Respells.eq_of_no_slash {s t : Text} (h : Respells s t) (hs : '/' ∉ s) : s = t := by
  induction h with
  | nil => rfl
  | cons hc _ ih =>
    simp only [List.mem_cons, not_or] at hs
    rcases hc with rfl | ⟨rfl, -⟩
    · rw [ih hs.2]
    · exact absurd rfl hs.1

/-- What has no backslash in it is as it was. -/
theorem Respells.exists_append {s front back : Text} (h : Respells s (front ++ back))
    (hfront : '\\' ∉ front) : ∃ back', s = front ++ back' ∧ Respells back' back := by
  induction front generalizing s with
  | nil => exact ⟨s, rfl, h⟩
  | cons c cs ih =>
    simp only [List.mem_cons, not_or] at hfront
    cases h with
    | cons hc h =>
      obtain ⟨back', rfl, hback⟩ := ih h hfront.2
      rcases hc with rfl | ⟨-, rfl⟩
      · exact ⟨back', rfl, hback⟩
      · exact absurd rfl hfront.1

theorem Respells.eq_of_no_backslash {s t : Text} (h : Respells s t) (ht : '\\' ∉ t) : s = t := by
  rw [← List.append_nil t] at h
  obtain ⟨back, rfl, hback⟩ := h.exists_append ht
  cases hback
  rw [List.append_nil]

end Spelling

/-- What stands behind one name is respelled as the identifier is. -/
theorem ModuleName.Behind.respelled {s t name p q : Text} (h : Spelling.Respells s t)
    (hs : Behind s name p) (ht : Behind t name q) : Spelling.Respells p q := by
  have hlength : s.length = t.length := List.Forall₂.length_eq h
  rcases hs with ⟨rfl, rfl⟩ | rfl <;> rcases ht with ⟨rfl, rfl⟩ | rfl
  · exact .nil
  · simp at hlength
  · simp at hlength
  · have hbehind : ∀ r : Text, (name ++ '/' :: r).drop (name.length + 1) = r := by
      intro r
      simp [List.drop_append, List.drop_eq_nil_of_le]
    have hdrop := List.forall₂_drop (name.length + 1) h
    rwa [hbehind, hbehind] at hdrop

/-- A name without a backslash ends where it ended before. -/
theorem ModuleName.exists_behind_of_respells {s t name : Text} (h : Spelling.Respells s t)
    (hname : '\\' ∉ name) (ht : ∃ path, Behind t name path) : ∃ path, Behind s name path := by
  rw [exists_behind_iff] at ht ⊢
  obtain ⟨rest, rfl, hends⟩ := ht
  obtain ⟨rest', rfl, hrest⟩ := h.exists_append hname
  refine ⟨rest', rfl, ?_⟩
  rcases hends with rfl | ⟨path, rfl⟩
  · cases hrest
    exact .inl rfl
  · rcases hrest with _ | ⟨hc, -⟩
    rcases hc with rfl | ⟨-, hslash⟩
    · exact .inr ⟨_, rfl⟩
    · cases hslash

namespace Surroundings

variable {w : Surroundings} {i : Importer}

/-- The same module is found, if the registry knows no name with a backslash in it and the slashes
behind the names that it knows are kept. -/
theorem moduleOf_respelled (root prev : Text) {s t : Text} (h : Spelling.Respells s t)
    (hbackslash : ∀ name context, '\\' ∈ name → w.lookup name context = .ok none)
    (hkept : ∀ name, ModuleName.IsName name →
      w.lookup name (w.contextOf root prev) ≠ .ok none → (∃ path, ModuleName.Behind s name path) →
        ∃ path, ModuleName.Behind t name path) :
    w.moduleOf root s prev = w.moduleOf root t prev := by
  rcases h with _ | ⟨rfl | ⟨rfl, rfl⟩, htail⟩
  · rfl
  · rename_i c s t
    have hhead : (Uri.isRelative (c :: s) || Path.isAbsolute (c :: s))
        = (Uri.isRelative (c :: t) || Path.isAbsolute (c :: t)) := by
      by_cases hdot : c = '.' <;> by_cases hslash : c = '/' <;>
        simp [Uri.isRelative, Path.isAbsolute, hdot, hslash]
    cases hdirect : Uri.isRelative (c :: t) || Path.isAbsolute (c :: t) with
    | true => simp [moduleOf, ModuleName.lookups, hdirect, hhead]
    | false =>
      refine moduleOf_congr (by simp) (by simp) (hhead.trans hdirect) hdirect
        fun name hname hknown => ⟨hkept name hname hknown, ?_⟩
      exact ModuleName.exists_behind_of_respells (.cons (.inl rfl) htail)
        fun hmem => hknown (hbackslash _ _ hmem)
  · -- An absolute path has no module, and the names of the other one begin with a backslash.
    rename_i s t
    have hscoped : ModuleName.scoped? ('\\' :: t) = none := rfl
    have hfirst : '\\' ∈ (ModuleName.segment ('\\' :: t)).1 := by simp [ModuleName.segment]
    have hright : w.moduleOf root ('\\' :: t) prev = .ok none := by
      rw [moduleOf, known_lookups w _ rfl (by simp), hscoped]
      exact known_cons_of_unknown (hbackslash _ _ hfirst) []
    rw [hright]
    rfl

/-- **Separators in an import.**  Where separators are unified, backslashes for some of the slashes
of an identifier make no difference to what the import comes to, up to how an error names it,
provided that the registry finds the same module for both. -/
theorem outcome_respelled (hcwd : Path.isAbsolute i.cwd = true) (hunified : i.unified = true)
    (prev : Text) {s t : Text} (h : Spelling.Respells s t)
    (hmodule : w.moduleOf i.settings.root s prev = w.moduleOf i.settings.root t prev) :
    (w.outcome i s prev).mapError Failure.withoutIdentifier
      = (w.outcome i t prev).mapError Failure.withoutIdentifier := by
  by_cases heq : s = t
  · rw [heq]
  · -- An identifier that is respelled has a separator in it, so it is no registration.
    have hstoken : Registration.token? s = none := by
      cases htoken : Registration.token? s with
      | none => rfl
      | some token =>
        exact absurd (h.eq_of_no_slash (Registration.not_mem_of_token? htoken (by decide)
          (by decide) (by decide) (by decide))) heq
    have httoken : Registration.token? t = none := by
      cases htoken : Registration.token? t with
      | none => rfl
      | some token =>
        exact absurd (h.eq_of_no_backslash (Registration.not_mem_of_token? htoken (by decide)
          (by decide) (by decide) (by decide))) heq
    have hne : s ≠ [] ∧ t ≠ [] := by
      cases h with
      | nil => exact absurd rfl heq
      | cons => exact ⟨by simp, by simp⟩
    refine outcome_congr hcwd prev hne.1 hne.2 hstoken httoken ?_ hmodule fun hp hq => ?_
    · rw [hunified]
      exact Uri.pathOf_respelled h
    · rw [hunified]
      exact Uri.pathOf_respelled (hp.respelled h hq)

/-- A backslash inside the path of a module's file. -/
theorem outcome_respelled_inside :
    let w : Surroundings :=
      { isFile := fun p => p = ['/', 'd', '/', 'a', '/', 'x']
        lookup := fun name _ => .ok
          (if name = ['m'] then some { name := ['m'], stylesheetDir := some ['/', 'd'] } else none)
        read := fun _ _ => .ok ['t'] }
    let i : Importer := ⟨['/'], { root := ['/'] }, true⟩
    (w.outcome i ['m', '/', 'a', '\\', 'x'] []).mapError Failure.withoutIdentifier
      = .ok { contents := ['t'], file := ['/', 'd', '/', 'a', '/', 'x'] } := by
  intro w i
  have hslash : w.outcome i ['m', '/', 'a', '/', 'x'] []
      = .ok { contents := ['t'], file := ['/', 'd', '/', 'a', '/', 'x'] } := by
    decide +kernel
  have hrespells : Spelling.Respells ['m', '/', 'a', '/', 'x'] ['m', '/', 'a', '\\', 'x'] :=
    .cons (.inl rfl) (.cons (.inl rfl) (.cons (.inl rfl) (.cons (.inr ⟨rfl, rfl⟩)
      (.cons (.inl rfl) .nil))))
  rw [← outcome_respelled rfl rfl [] hrespells rfl, hslash]
  rfl

/-- A backslash behind a module's name hides the module, which a slash does not. -/
theorem module_not_found_behind_backslash :
    let w : Surroundings :=
      { isFile := fun p => p = ['/', 'd', '/', 'x']
        lookup := fun name _ => .ok
          (if name = ['m'] then some { name := ['m'], stylesheetDir := some ['/', 'd'] } else none)
        read := fun _ _ => .ok ['t'] }
    let i : Importer := ⟨['/'], { root := ['/'], extensions := [['.', 'c']] }, true⟩
    Spelling.Respells ['m', '/', 'x'] ['m', '\\', 'x'] ∧
      w.outcome i ['m', '/', 'x'] [] = .ok { contents := ['t'], file := ['/', 'd', '/', 'x'] } ∧
      (w.outcome i ['m', '\\', 'x'] []).isOk = false := by
  refine ⟨.cons (.inl rfl) (.cons (.inr ⟨rfl, rfl⟩) (.cons (.inl rfl) .nil)), ?_, ?_⟩
  · decide +kernel
  · decide +kernel

end Surroundings

end StyleImport
