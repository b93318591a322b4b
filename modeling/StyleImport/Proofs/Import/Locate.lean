/-
Finding the module of an identifier, as far as imports depend on it.

* `Located.looksOnly_locate` — nothing is read and nobody else is asked;
* `Located.locate_cases` — what is located, if anything is;
* `Located.moduleName_of_record` — a record belongs to a module that has a name.
-/
import StyleImport.Import.Locate
import StyleImport.Proofs.Import.Exchange

namespace StyleImport

namespace ModuleName

theorem split_ne_nil {identifier name path : Text} (h : split identifier = some (name, path)) :
    name ≠ [] := by
  unfold split at h
  split at h
  · rename_i name' rest hscoped
    rw [Option.some.injEq, Prod.mk.injEq] at h
    rw [← h.1]
    -- A scoped name starts with the mark of its scope.
    rintro rfl
    unfold scoped? at hscoped
    split at hscoped
    · split at hscoped
      · dsimp only at hscoped
        split at hscoped <;> simp at hscoped
      · simp at hscoped
    · simp at hscoped
  · dsimp only at h
    split at h
    · simp at h
    · rename_i hne
      rw [Option.some.injEq, Prod.mk.injEq] at h
      exact h.1 ▸ hne

theorem widen_ne_nil {name : Text} (h : hasScope name = true) (path : Text) :
    (widen name path).1 ≠ [] := by
  cases name with
  | nil => simp [hasScope] at h
  | cons c cs =>
    obtain rfl : c = '@' := by simpa [hasScope] using h
    simp [widen, segment]

end ModuleName

namespace Located

theorem looksOnly_lookupModule (identifier context name path : Text) :
    (lookupModule identifier context name path).LooksOnly := by
  intro r
  cases r with
  | some r => trivial
  | none =>
    show Plan.LooksOnly (if _ then _ else _)
    split
    · exact fun r => trivial
    · trivial

theorem looksOnly_locate (root identifier prev : Text) :
    (locate root identifier prev).LooksOnly := by
  intro isRealFile
  split
  · trivial
  · split
    · trivial
    · refine (looksOnly_lookupModule _ _ _ _).bind fun located => ?_
      dsimp only
      split <;> trivial

variable {σ : Type} {s s' : Compilation σ}

/-- The name and the path in the end are the given ones or those of the scope. -/
theorem run_lookupModule_cases {identifier context name path name' path' : Text}
    {record : Option ModuleRecord}
    (h : (lookupModule identifier context name path).run s = (.ok (name', path', record), s')) :
    (name', path') = (name, path) ∨
      ModuleName.hasScope name = true ∧ (name', path') = ModuleName.widen name path := by
  unfold lookupModule at h
  rw [Plan.run] at h
  split at h
  · rename_i r s₁ _
    cases r with
    | some r =>
      simp only [Plan.run, Prod.mk.injEq, Except.ok.injEq] at h
      exact .inl (by rw [h.1.1, h.1.2.1])
    | none =>
      dsimp only at h
      split at h
      · rename_i hscope
        rw [Plan.run, Plan.run] at h
        split at h
        · simp only [Plan.run, Prod.mk.injEq, Except.ok.injEq] at h
          exact .inr ⟨hscope, by rw [← h.1.1, ← h.1.2.1]⟩
        · simp at h
      · simp only [Plan.run, Prod.mk.injEq, Except.ok.injEq] at h
        exact .inl (by rw [h.1.1, h.1.2.1])
  · simp at h

theorem run_lookupModule_ne_nil {identifier context name path name' path' : Text}
    {record : Option ModuleRecord} (hname : name ≠ [])
    (h : (lookupModule identifier context name path).run s = (.ok (name', path', record), s')) :
    name' ≠ [] := by
  rcases run_lookupModule_cases h with hsame | ⟨hscope, hwide⟩
  · obtain ⟨rfl, rfl⟩ := Prod.mk.inj hsame
    exact hname
  · obtain ⟨rfl, rfl⟩ := Prod.mk.inj hwide
    exact ModuleName.widen_ne_nil hscope path

/-- What is located of an identifier: itself, without a module, or what a lookup of the module in
front of it found.  The place that the module is seen from is the requesting file, if that is a
file, and else the root. -/
theorem locate_cases {root identifier prev : Text} {l : Located}
    (h : (locate root identifier prev).run s = (.ok l, s')) :
    let isRealFile := s.host.isFile s.state prev
    let context := if isRealFile then prev else root
    l = direct identifier isRealFile context ∨
      ∃ name path record, name ≠ [] ∧
        l = ⟨identifier, some name, path, record, isRealFile, context⟩ := by
  intro isRealFile context
  rw [locate, Plan.run] at h
  dsimp only at h
  split at h
  · simp only [Plan.run, Prod.mk.injEq, Except.ok.injEq] at h
    exact .inl h.1.symm
  · split at h
    · simp [Plan.run] at h
    · rename_i name path hsplit
      rw [Plan.run_bind] at h
      split at h
      · rename_i found s₁ hfound
        obtain ⟨name', path', record⟩ := found
        have hne := run_lookupModule_ne_nil (ModuleName.split_ne_nil hsplit) hfound
        refine .inr ⟨name', path', record, hne, ?_⟩
        dsimp only at h
        -- A module that was found is noted in the journal.
        split at h <;> simp only [Plan.run, Prod.mk.injEq, Except.ok.injEq] at h <;>
          exact h.1.symm
      · simp at h

theorem locate_run {root identifier prev : Text} {l : Located}
    (h : (locate root identifier prev).run s = (.ok l, s')) :
    l.identifier = identifier ∧ l.isRealFile = s.host.isFile s.state prev ∧
      l.contextPath = (if l.isRealFile then prev else root) := by
  rcases locate_cases h with rfl | ⟨name, path, record, _, rfl⟩
  · exact ⟨rfl, rfl, rfl⟩
  · exact ⟨rfl, rfl, rfl⟩

theorem moduleName_of_record {root identifier prev : Text} {l : Located}
    (h : (locate root identifier prev).run s = (.ok l, s')) {r : ModuleRecord}
    (hr : l.record = some r) : ∃ name, l.moduleName = some name ∧ name ≠ [] := by
  rcases locate_cases h with rfl | ⟨name, path, record, hne, rfl⟩
  · simp [direct] at hr
  · exact ⟨name, rfl, hne⟩

end Located

end StyleImport
