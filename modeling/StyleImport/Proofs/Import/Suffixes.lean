/-
Queries and fragments behind identifiers.

What follows a query or a fragment mark is no part of an identifier's path, and no registry knows a
name with a mark in it.  So a suffix makes no difference to the names that are looked up, except
behind a bare name: there it becomes part of the name.

* `ModuleName.exists_behind_append_suffix` — the names that end in an identifier with a suffix;
* `Surroundings.outcome_append_suffix` — so the import is the same, unless its identifier is the
  name of a known module;
* `Surroundings.module_not_found_with_suffix` — such a name with a suffix is not found.
-/
import StyleImport.Proofs.Import.Separators

namespace StyleImport

namespace Uri

/-- Whether there is a query or a fragment mark in a text. -/
def HasMark (t : Text) : Prop := ∃ c ∈ t, isSuffixMark c = true

/-- Where a text with a suffix is cut in two and the first part has no mark, the cut is in front of
the suffix. -/
theorem exists_append_of_append_suffix {t suffix front back : Text} (hsuffix : IsSuffix suffix)
    (h : t ++ suffix = front ++ back) (hfront : ¬ HasMark front) :
    ∃ more, t = front ++ more ∧ back = more ++ suffix := by
  rcases List.append_eq_append_iff.mp h with ⟨more, rfl, hmore⟩ | ⟨more, rfl, hmore⟩
  · obtain ⟨c, cs, rfl, hc⟩ := hsuffix
    rcases more with _ | ⟨d, ds⟩
    · exact ⟨[], by simp, by simpa using hmore.symm⟩
    · obtain ⟨rfl, -⟩ := List.cons.inj hmore
      exact absurd ⟨_, by simp, hc⟩ hfront
  · exact ⟨more, rfl, hmore⟩

theorem IsSuffix.ne_slash_cons {suffix : Text} (h : IsSuffix suffix) (t : Text) :
    suffix ≠ '/' :: t := by
  obtain ⟨c, cs, rfl, hc⟩ := h
  rintro heq
  rw [(List.cons.inj heq).1] at hc
  cases hc

end Uri

/-- A name without a mark ends in front of a suffix, at a slash. -/
theorem ModuleName.exists_behind_append_suffix {s name suffix : Text}
    (hsuffix : Uri.IsSuffix suffix) (hname : ¬ Uri.HasMark name) :
    (∃ path, Behind (s ++ suffix) name path) ↔ ∃ path, s = name ++ '/' :: path := by
  rw [exists_behind_iff]
  constructor
  · rintro ⟨rest, heq, hends⟩
    obtain ⟨more, rfl, rfl⟩ := Uri.exists_append_of_append_suffix hsuffix heq hname
    rcases more with _ | ⟨c, cs⟩
    · rcases hends with hnil | ⟨path, hslash⟩
      · obtain ⟨c, cs, rfl, -⟩ := hsuffix
        cases hnil
      · exact absurd hslash (hsuffix.ne_slash_cons path)
    · rcases hends with hnil | ⟨path, hslash⟩
      · cases hnil
      · exact ⟨cs, by rw [(List.cons.inj hslash).1]⟩
  · rintro ⟨path, rfl⟩
    exact ⟨'/' :: path ++ suffix, List.append_assoc _ _ _, .inr ⟨path ++ suffix, rfl⟩⟩

namespace Surroundings

open Uri ModuleName

variable {w : Surroundings} {i : Importer}

/-- A suffix makes no difference to the module that is found, behind anything but the name of a
known module. -/
theorem moduleOf_append_suffix (root prev : Text) {s suffix : Text} (hne : s ≠ [])
    (hsuffix : IsSuffix suffix)
    (hmarks : ∀ name context, HasMark name → w.lookup name context = .ok none)
    (hbare : (s, []) ∈ lookups s → w.lookup s (w.contextOf root prev) = .ok none) :
    w.moduleOf root (s ++ suffix) prev = w.moduleOf root s prev := by
  have hhead : (isRelative (s ++ suffix) || Path.isAbsolute (s ++ suffix))
      = (isRelative s || Path.isAbsolute s) := by
    obtain ⟨c, cs, rfl⟩ := List.exists_cons_of_ne_nil hne
    by_cases hdot : c = '.' <;> by_cases hslash : c = '/' <;>
      simp [isRelative, Path.isAbsolute, hdot, hslash]
  cases hdirect : isRelative s || Path.isAbsolute s with
  | true => simp [moduleOf, lookups, hdirect, hhead]
  | false =>
    refine moduleOf_congr (by simp [hne]) hne (hhead.trans hdirect) hdirect
      fun name hname hknown => ?_
    rw [exists_behind_append_suffix hsuffix fun hmark => hknown (hmarks _ _ hmark)]
    refine exists_congr fun path => (or_iff_right ?_).symm
    rintro ⟨rfl, -⟩
    exact hknown (hbare (mem_lookups_self hdirect hne hname))

/-- **Queries and fragments in an import.**  Where the registry knows no name with a query or a
fragment mark in it, a suffix behind an identifier makes no difference to what the import comes to,
up to how an error names it, unless the identifier is nothing but the name of a known module. -/
theorem outcome_append_suffix (hcwd : Path.isAbsolute i.cwd = true) (prev : Text) {s suffix : Text}
    (hne : s ≠ []) (htoken : Registration.token? s = none) (hsuffix : IsSuffix suffix)
    (hmarks : ∀ name context, HasMark name → w.lookup name context = .ok none)
    (hbare : (s, []) ∈ lookups s →
      w.lookup s (w.contextOf i.settings.root prev) = .ok none) :
    (w.outcome i (s ++ suffix) prev).mapError Failure.withoutIdentifier
      = (w.outcome i s prev).mapError Failure.withoutIdentifier := by
  have htoken' : Registration.token? (s ++ suffix) = none := by
    cases htoken' : Registration.token? (s ++ suffix) with
    | none => rfl
    | some token =>
      obtain ⟨c, cs, rfl, hc⟩ := hsuffix
      have hmark : c = '?' ∨ c = '#' := by simpa [isSuffixMark] using hc
      have habsent : c ∉ s ++ c :: cs := by
        rcases hmark with rfl | rfl <;>
          exact Registration.not_mem_of_token? htoken' (by decide) (by decide) (by decide)
            (by decide)
      exact absurd (by simp) habsent
  have hmodule := moduleOf_append_suffix i.settings.root prev hne hsuffix hmarks hbare
  refine outcome_congr hcwd prev (by simp [hne]) hne htoken' htoken
    (pathOf_append_suffix _ s hsuffix) hmodule fun {name p q} hp hq => ?_
  -- What stands behind the name goes on with the suffix.
  rcases hq with ⟨rfl, rfl⟩ | rfl
  · rcases hp with ⟨heq, rfl⟩ | heq
    · rfl
    · exact absurd (List.append_cancel_left heq) (hsuffix.ne_slash_cons p)
  · rcases hp with ⟨heq, rfl⟩ | heq
    · have hlength := congrArg List.length heq
      simp at hlength
    · have hbehind : q ++ suffix = p := by simpa using heq
      rw [← hbehind, pathOf_append_suffix _ q hsuffix]

/-- A query with a slash in it, behind a file of a scoped module that is known by its scope. -/
theorem outcome_append_suffix_of_scope :
    let w : Surroundings :=
      { isFile := fun p => p = ['/', 'd', '/', 'n', '.', 'c']
        lookup := fun name _ => .ok
          (if name = ['@', 's'] then some { name := ['@', 's'], stylesheetDir := some ['/', 'd'] }
            else none)
        read := fun _ _ => .ok ['t'] }
    let i : Importer := ⟨['/'], { root := ['/'], extensions := [['.', 'c']] }, true⟩
    (w.outcome i (['@', 's', '/', 'n'] ++ ['?', 'v', '/', 'w']) []).mapError
        Failure.withoutIdentifier
      = .ok { contents := ['t'], file := ['/', 'd', '/', 'n', '.', 'c'] } := by
  intro w i
  have hbare : w.outcome i ['@', 's', '/', 'n'] []
      = .ok { contents := ['t'], file := ['/', 'd', '/', 'n', '.', 'c'] } := by
    decide +kernel
  have hmarks : ∀ name context, HasMark name → w.lookup name context = .ok none := by
    rintro name context ⟨c, hc, hmark⟩
    have hname : name ≠ ['@', 's'] := by
      rintro rfl
      simp only [List.mem_cons, List.not_mem_nil, or_false] at hc
      rcases hc with rfl | rfl <;> cases hmark
    simp [w, hname]
  rw [outcome_append_suffix rfl [] (by decide) rfl ⟨'?', _, rfl, rfl⟩ hmarks fun _ => rfl, hbare]
  rfl

/-- The name of a known module is its index file, and with a suffix it is the name of another
module, which nobody knows. -/
theorem module_not_found_with_suffix :
    let w : Surroundings :=
      { isFile := fun p => p = "/d/index.c"
        lookup := fun name _ => .ok
          (if name = ['m'] then some { name := ['m'], stylesheetDir := some ['/', 'd'] } else none)
        read := fun _ _ => .ok ['t'] }
    let i : Importer := ⟨['/'], { root := ['/'], extensions := [['.', 'c']] }, true⟩
    w.outcome i ['m'] [] = .ok { contents := ['t'], file := "/d/index.c" } ∧
      (w.outcome i (['m'] ++ ['?', 'q']) []).isOk = false := by
  refine ⟨?_, ?_⟩
  · decide +kernel
  · decide +kernel

end Surroundings

end StyleImport
