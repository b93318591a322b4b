/-
The lookups that find the module of an identifier.

A registry whose answers depend on name and place alone is asked for the name in front of an
identifier, and once more for the scope of that name if the name is unknown.  Whatever it answers,
the name and the path that are located are the identifier, cut in two.

* `ModuleName.rejoin_of_behind`, `ModuleName.rejoin_widen` — putting name and path together again;
* `Located.exchanges_lookupModule`, `Located.run_lookupModule` — the lookups of a name;
* `Located.locate_loses_nothing` — those of an identifier, and what is located.
-/
import StyleImport.Proofs.Import.SameImport

namespace StyleImport

namespace ModuleName

/-- A name and the path inside its module, put together. -/
def rejoin (name path : Text) : Text := if path = [] then name else name ++ '/' :: path

/-- Of an identifier that is cut in two, a slash at the end may be lost. -/
theorem rejoin_of_behind {identifier name path : Text} (h : Behind identifier name path) :
    rejoin name path = identifier ∨ rejoin name path ++ ['/'] = identifier := by
  rcases h with ⟨rfl, rfl⟩ | rfl
  · exact .inl rfl
  · by_cases hpath : path = []
    · exact .inr (by simp [rejoin, hpath])
    · exact .inl (if_neg hpath)

/-- Cutting a scoped name behind its scope moves the segment behind it to the path. -/
theorem rejoin_widen {identifier name path : Text} (h : split identifier = some (name, path)) :
    rejoin (widen name path).1 (widen name path).2 = rejoin name path := by
  by_cases hslash : '/' ∈ name
  · obtain ⟨scope, last, rfl, -, hscope, hlast, -⟩ := isScoped_of_split h hslash
    rw [widen_scoped hscope hlast]
    by_cases hpath : path = [] <;> simp [rejoin, hpath, hlast]
  · rw [widen_of_no_slash hslash]

end ModuleName

namespace Located

variable {σ : Type} {s : Compilation σ} {registry : Text → Text → Option ModuleRecord}

/-- The host's registry answers by name and place alone. -/
def Answers (host : Host σ) (registry : Text → Text → Option ModuleRecord) : Prop :=
  ∀ name context state, (host.lookup name context state).1 = .ok (registry name context)

theorem Answers.lookup (h : Answers s.host registry) (name context : Text) :
    s.lookup name context
      = (.ok (registry name context),
          { s with state := (s.host.lookup name context s.state).2 }) := by
  rw [Compilation.lookup, ← h name context s.state]

/-- Whether a name is looked up once more, as that of its scope. -/
def Retries (registry : Text → Text → Option ModuleRecord) (context name : Text) : Prop :=
  registry name context = none ∧ ModuleName.hasScope name = true

instance (context name : Text) : Decidable (Retries registry context name) :=
  inferInstanceAs (Decidable (_ ∧ _))

/-- The lookups of a name. -/
theorem exchanges_lookupModule (h : Answers s.host registry) (identifier context name path : Text) :
    (lookupModule identifier context name path).exchanges s
      = .lookup name context (.ok (registry name context)) ::
          if Retries registry context name then
            [.lookup (ModuleName.widen name path).1 context
              (.ok (registry (ModuleName.widen name path).1 context))]
          else [] := by
  rw [lookupModule, Plan.exchanges, h.lookup]
  cases hname : registry name context with
  | some r => simp [Retries, hname, Plan.exchanges]
  | none =>
    by_cases hscope : ModuleName.hasScope name = true
    · have hagain : Answers (({ s with state := (s.host.lookup name context s.state).2 } :
          Compilation σ).noteAll [retryEvent identifier (ModuleName.widen name path).1]).host
          registry := h
      simp [Retries, hname, hscope, Plan.exchanges, hagain.lookup]
    · simp [Retries, hname, hscope, Plan.exchanges]

/-- The name in the end is that of the last lookup, and so is the record. -/
theorem run_lookupModule (h : Answers s.host registry) (identifier context name path : Text) :
    ((lookupModule identifier context name path).run s).1
      = .ok (if Retries registry context name then
            ((ModuleName.widen name path).1, (ModuleName.widen name path).2,
              registry (ModuleName.widen name path).1 context)
          else (name, path, registry name context)) := by
  rw [lookupModule, Plan.run, h.lookup]
  cases hname : registry name context with
  | some r => simp [Retries, hname, Plan.run]
  | none =>
    by_cases hscope : ModuleName.hasScope name = true
    · have hagain : Answers (({ s with state := (s.host.lookup name context s.state).2 } :
          Compilation σ).noteAll [retryEvent identifier (ModuleName.widen name path).1]).host
          registry := h
      simp [Retries, hname, hscope, Plan.run, hagain.lookup]
    · simp [Retries, hname, hscope, Plan.run]

/-- What is located once the lookups of a name are over; a module that was found is noted in the
journal. -/
def conclude (identifier : Text) (isRealFile : Bool) (context : Text) :
    Text × Text × Option ModuleRecord → Plan Located
  | (name, path, some r) => .note (foundEvent identifier r)
      (.done ⟨identifier, some name, path, some r, isRealFile, context⟩)
  | (name, path, none) => .done ⟨identifier, some name, path, none, isRealFile, context⟩

theorem locate_of_split {root identifier prev first path : Text}
    (hdirect : (Uri.isRelative identifier || Path.isAbsolute identifier) = false)
    (hsplit : ModuleName.split identifier = some (first, path)) :
    locate root identifier prev = .isFile prev fun isRealFile =>
      (lookupModule identifier (if isRealFile then prev else root) first path).bind
        (conclude identifier isRealFile (if isRealFile then prev else root)) := by
  unfold locate
  rw [hdirect, hsplit]
  refine congrArg (Plan.isFile prev) (funext fun isRealFile => ?_)
  refine congrArg (Plan.bind _) (funext fun found => ?_)
  obtain ⟨name, path, _ | r⟩ := found <;> rfl

theorem exchanges_conclude (identifier : Text) (isRealFile : Bool) (context : Text)
    (found : Text × Text × Option ModuleRecord) (s : Compilation σ) :
    (conclude identifier isRealFile context found).exchanges s = [] := by
  obtain ⟨name, path, _ | r⟩ := found <;> rfl

theorem run_conclude (identifier : Text) (isRealFile : Bool) (context : Text)
    (found : Text × Text × Option ModuleRecord) (s : Compilation σ) :
    ((conclude identifier isRealFile context found).run s).1
      = .ok ⟨identifier, some found.1, found.2.1, found.2.2, isRealFile, context⟩ := by
  obtain ⟨name, path, _ | r⟩ := found <;> rfl

/-- **The module of an identifier is found in at most two lookups, and nothing of the identifier is
lost.**  With a registry that answers by name and place alone, seen from the requesting file if that
is a file and from the root otherwise:

* an identifier that is relative or absolute is not looked up, and comes back whole;
* any other one that is not empty is looked up by the name in front of it, and once more, by the
  first segment of that name, exactly if the name is unknown and starts with an at sign;
* the record is what the registry has for the name that comes back;
* that name, with the path behind a slash unless the path is empty, is the identifier, or is the
  identifier without the slash at its end. -/
theorem locate_loses_nothing (h : Answers s.host registry) (root identifier prev : Text) :
    let isRealFile := s.host.isFile s.state prev
    let context := if isRealFile then prev else root
    let plan := locate root identifier prev
    let asked := fun name => Exchange.lookup name context (.ok (registry name context))
    (Uri.isRelative identifier = true ∨ Path.isAbsolute identifier = true →
      plan.exchanges s = [.isFile prev isRealFile] ∧
      (plan.run s).1 = .ok ⟨identifier, none, identifier, none, isRealFile, context⟩) ∧
    (Uri.isRelative identifier = false → Path.isAbsolute identifier = false → identifier ≠ [] →
      ∃ first path, ModuleName.split identifier = some (first, path) ∧
        let again := registry first context = none ∧ first.head? = some '@'
        let scope := first.takeWhile (· ≠ '/')
        plan.exchanges s
          = .isFile prev isRealFile :: asked first :: (if again then [asked scope] else []) ∧
        ∃ name relativePath,
          (plan.run s).1 = .ok ⟨identifier, some name, relativePath, registry name context,
            isRealFile, context⟩ ∧
          name = (if again then scope else first) ∧
          (ModuleName.rejoin name relativePath = identifier ∨
            ModuleName.rejoin name relativePath ++ ['/'] = identifier)) := by
  intro isRealFile context plan asked
  refine ⟨fun hdirect => ?_, fun hrelative habsolute hne => ?_⟩
  · have hdirect : (Uri.isRelative identifier || Path.isAbsolute identifier) = true := by
      simpa using hdirect
    have hplan : plan = .isFile prev fun isRealFile =>
        if (Uri.isRelative identifier || Path.isAbsolute identifier) = true then _ else _ := rfl
    rw [hplan, Plan.exchanges, Plan.run]
    simp only [hdirect, if_true]
    exact ⟨rfl, rfl⟩
  · have hdirect : (Uri.isRelative identifier || Path.isAbsolute identifier) = false := by
      rw [hrelative, habsolute]
      rfl
    obtain ⟨⟨first, path⟩, hsplit⟩ :=
      Option.ne_none_iff_exists'.mp (ModuleName.split_ne_none hne habsolute)
    refine ⟨first, path, hsplit, ?_⟩
    intro again scope
    have hagain : Retries registry context first ↔ again :=
      and_congr_right fun _ => decide_eq_true_iff
    have hlookups := exchanges_lookupModule h identifier context first path
    have hfound := run_lookupModule h identifier context first path
    rcases hrun : (lookupModule identifier context first path).run s with ⟨e | found, s'⟩
    · rw [hrun] at hfound
      cases hfound
    · rw [hrun, Except.ok.injEq] at hfound
      have hplan : plan.exchanges s = .isFile prev isRealFile ::
            ((lookupModule identifier context first path).bind
              (conclude identifier isRealFile context)).exchanges s ∧
          plan.run s = ((lookupModule identifier context first path).bind
              (conclude identifier isRealFile context)).run s := by
        have hlocate : plan = _ := locate_of_split hdirect hsplit
        rw [hlocate]
        exact ⟨rfl, rfl⟩
      rw [hplan.1, hplan.2, Plan.exchanges_bind_of_ok hrun, Plan.run_bind_of_ok hrun,
        exchanges_conclude, run_conclude, List.append_nil, hlookups]
      have hjoined := ModuleName.rejoin_of_behind (ModuleName.eq_of_split hsplit)
      by_cases hretry : again
      · rw [if_pos (hagain.mpr hretry)] at hfound
        rw [if_pos (hagain.mpr hretry), if_pos hretry, if_pos hretry, hfound]
        exact ⟨rfl, _, _, rfl, rfl, by rwa [ModuleName.rejoin_widen hsplit]⟩
      · rw [if_neg (fun hr => hretry (hagain.mp hr))] at hfound
        rw [if_neg (fun hr => hretry (hagain.mp hr)), if_neg hretry, if_neg hretry, hfound]
        exact ⟨rfl, _, _, rfl, rfl, hjoined⟩

/-- The name `@s/n` is unknown to a registry that knows `@s` only, so the path inside the module is
`n` and what follows; the slash at the end is lost. -/
theorem locate_loses_nothing_of_scope :
    let registry := fun name _ : Text =>
      if name = ['@', 's'] then some ({ name := ['s'] } : ModuleRecord) else none
    let host : Host Unit :=
      { isFile := fun _ _ => false, lookup := fun name context s => (.ok (registry name context), s)
        read := fun _ s => (.ok [], s), ask := fun _ _ s => (.ok none, s), note := fun _ s => s }
    let s : Compilation Unit := { cwd := ['/'], host, session := {}, state := () }
    let plan := locate ['/', 'r'] ['@', 's', '/', 'n', '/'] ['f']
    Answers host registry ∧
      ((plan.exchanges s).length = 3 ∧ (plan.run s).1 = .ok ⟨['@', 's', '/', 'n', '/'],
        some ['@', 's'], ['n'], some { name := ['s'] }, false, ['/', 'r']⟩) := by
  intro registry host s plan
  have hanswers : Answers s.host registry := fun _ _ _ => rfl
  obtain ⟨first, path, hsplit, hlookups, -⟩ :=
    (locate_loses_nothing hanswers ['/', 'r'] ['@', 's', '/', 'n', '/'] ['f']).2 rfl rfl (by decide)
  refine ⟨hanswers, ?_, by decide +kernel⟩
  obtain ⟨rfl, rfl⟩ : first = ['@', 's', '/', 'n'] ∧ path = [] := by
    have hcut : ModuleName.split ['@', 's', '/', 'n', '/'] = some (['@', 's', '/', 'n'], []) := by
      decide
    rw [hcut, Option.some.injEq, Prod.mk.injEq] at hsplit
    exact ⟨hsplit.1.symm, hsplit.2.symm⟩
  rw [hlookups]
  decide

end Located

end StyleImport
