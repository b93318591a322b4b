/-
How queries fail.

A query that is called with as many values as it takes answers with a value, an error value among
them, except in two cases: a value that is shown in an error message holds an integer beyond the
doubles, or a path that is listed or read has an impossible character in it.

* `Query.compute_eq_error` — the failures of queries, before errors become values;
* `Query.answer_value_unless` — and what is left of them in the answers.
-/
import Mathlib.Tactic.Common
import StyleImport.Proofs.Disk.Glob
import StyleImport.Proofs.Stylesheet.Shown
import StyleImport.Query

namespace StyleImport

namespace Query

variable {c : QueryContext} {registered : Option Value} {e : Failure}

/-- Whether a query takes so many arguments. -/
def takes : Query → Nat → Bool
  | .absolutePath, n => 0 < n
  | .join, _ => true
  | .pathSeparator, n => n = 0
  | .listFiles, n | .listDirectories, n => n = 1 || n = 2
  | .exist, n | .parseFilename, n | .info, n | .contents, n => n = 1

/-- Whether a query lists or reads what a path leads to. -/
def opens : Query → Bool
  | .listFiles | .listDirectories | .info | .contents => true
  | _ => false

/-- A value that a query is given: an argument or, in the query for a path, what the stylesheet's
map binds a token to. -/
def Given (registered : Option Value) (q : Query) (args : List Value) (v : Value) : Prop :=
  v ∈ args ∨ q = .absolutePath ∧ ∃ token, registered.bind (Value.get? token) = some v

/-- The failures that some values can lead to. -/
inductive Fails (given : Value → Prop) (q : Query) : Failure → Prop
  | promised (e : ImportError) : Fails given q (.promised e)
  | tooLarge {v : Value} : given v → v.HoldsHuge → Fails given q .tooLarge
  | nul {t : Text} {isQuoted : Bool} :
    q.opens → given (.string t isQuoted) → Text.HasNul t → Fails given q (.read .nulInPath)

section

variable {given : Value → Prop} {q : Query}

theorem fails_of_check {p : Text} (h : c.check p = .error e) : Fails given q e := by
  unfold QueryContext.check at h
  split at h
  · cases h
  · exact Except.error.inj h ▸ .promised _

theorem fails_of_admitted {dir : Text} {entries : List Text}
    (h : admitted c dir entries = .error e) : Fails given q e := by
  rcases bind_eq_error h with h | ⟨-, -, h⟩
  · obtain ⟨entry, -, -, h⟩ := forIn_eq_error h
    split at h
    · exact Except.error.inj h ▸ .promised _
    · cases h
  · cases h

theorem fails_of_readFailure (hopens : q.opens) {p : Text} {isQuoted : Bool}
    (hp : given (.string p isQuoted)) {failure : ReadFailure}
    (hnul : failure = .nulInPath → Text.HasNul p) : Fails given q (readFailure p failure) := by
  cases failure with
  | system o => exact .promised _
  | undecodable f => exact .promised _
  | nulInPath => exact .nul hopens hp (hnul rfl)

theorem string_of_admittedPath {v : Value} {p : Text} (h : admittedPath c v = .ok p) :
    ∃ isQuoted, v = .string p isQuoted := by
  obtain ⟨p', hp', h⟩ := bind_eq_ok h
  obtain ⟨-, -, h⟩ := bind_eq_ok h
  obtain rfl : p' = p := Except.ok.inj h
  exact Value.requireString_eq_ok hp'

variable (hgiven : ∀ v, given v → v ≠ .foreign)

include hgiven

theorem fails_of_requireString {v : Value} (hv : given v) (h : v.requireString = .error e) :
    Fails given q e := by
  rcases Value.requireString_eq_error (hgiven v hv) h with ⟨e', rfl⟩ | ⟨rfl, hhuge⟩
  · exact .promised e'
  · exact .tooLarge hv hhuge

theorem fails_of_mapM_requireString {vs : List Value} (hvs : ∀ v ∈ vs, given v)
    (h : vs.mapM Value.requireString = .error e) : Fails given q e := by
  obtain ⟨v, hv, h⟩ := mapM_eq_error h
  exact fails_of_requireString hgiven (hvs v hv) h

theorem fails_of_admittedPath {v : Value} (hv : given v) (h : admittedPath c v = .error e) :
    Fails given q e := by
  rcases bind_eq_error h with h | ⟨p, -, h⟩
  · exact fails_of_requireString hgiven hv h
  · rcases bind_eq_error h with h | ⟨-, -, h⟩
    · exact fails_of_check h
    · cases h

theorem fails_of_registeredDirectory {token : Text}
    (hregistered : ∀ token v, registered.bind (Value.get? token) = some v → given v)
    (h : registeredDirectory c registered token = .error e) : Fails given q e := by
  unfold registeredDirectory at h
  split at h
  · cases h
  · split at h
    · rename_i v hv
      exact fails_of_requireString hgiven (hregistered token v hv) (eq_error_of_map h)
    · cases h

theorem fails_of_belowToken {id : Value} {segments : List Value} (hid : given id)
    (hsegments : ∀ v ∈ segments, given v)
    (hregistered : ∀ token v, registered.bind (Value.get? token) = some v → given v)
    (h : belowToken c registered id segments = .error e) : Fails given q e := by
  rcases bind_eq_error h with h | ⟨token, -, h⟩
  · exact fails_of_requireString hgiven hid h
  rcases bind_eq_error h with h | ⟨_ | dir, -, h⟩
  · exact fails_of_registeredDirectory hgiven hregistered h
  · cases h
  · rcases bind_eq_error h with h | ⟨parts, -, h⟩
    · exact fails_of_mapM_requireString hgiven hsegments h
    · cases h

theorem fails_of_list (hdisk : c.disk.Possible) (hopens : q.opens) {directories : Bool}
    {dir pattern : Value} (hdir : given dir) (hpattern : given pattern ∨ pattern = .quoted ['*'])
    (h : list c directories dir pattern = .error e) : Fails given q e := by
  rcases bind_eq_error h with h | ⟨p, hp, h⟩
  · exact fails_of_requireString hgiven hdir h
  rcases bind_eq_error h with h | ⟨t, ht, h⟩
  · rcases hpattern with hpattern | rfl
    · exact fails_of_requireString hgiven hpattern h
    · cases h
  rcases bind_eq_error h with h | ⟨-, -, h⟩
  · exact fails_of_check h
  rcases bind_eq_error h with h | ⟨entries, -, h⟩
  · -- The pattern can only fail for a character in one of the two texts.
    obtain ⟨failure, hglob, rfl⟩ := eq_error_of_mapError h
    obtain ⟨rfl, hnul⟩ := Disk.glob_eq_error hdisk (eq_error_of_map hglob)
    obtain ⟨isQuoted, rfl⟩ := Value.requireString_eq_ok hp
    obtain ⟨isQuoted', rfl⟩ := Value.requireString_eq_ok ht
    rcases hnul with hnul | hnul
    · exact .nul hopens hdir hnul
    · rcases hpattern with hpattern | hpattern
      · exact .nul hopens hpattern hnul
      · cases hpattern
        exact absurd hnul (by unfold Text.HasNul; decide)
  · exact fails_of_admitted h

end

/-- The failures of queries, before errors become values. -/
theorem compute_eq_error (hdisk : c.disk.Possible) {q : Query} {args : List Value}
    (htakes : q.takes args.length) (hgiven : ∀ v, Given registered q args v → v ≠ .foreign)
    (h : compute c registered q args = .error e) : Fails (Given registered q args) q e := by
  have harg {v : Value} (hv : v ∈ args) : Given registered q args v := .inl hv
  cases q with
  | absolutePath =>
    cases args with
    | nil => simp [takes] at htakes
    | cons id segments =>
      exact fails_of_belowToken hgiven (harg List.mem_cons_self)
        (fun v hv => harg (List.mem_cons_of_mem _ hv))
        (fun token v hv => .inr ⟨rfl, token, hv⟩) h
  | join =>
    rcases bind_eq_error h with h | ⟨parts, -, h⟩
    · exact fails_of_mapM_requireString hgiven (fun v hv => harg hv) h
    · cases h
  | pathSeparator =>
    obtain rfl : args = [] := by simpa [takes] using htakes
    cases h
  | listFiles | listDirectories =>
    -- The pattern may be left out, and then every name will do.
    rcases args with _ | ⟨dir, _ | ⟨pattern, _ | ⟨v, vs⟩⟩⟩
    · simp [takes] at htakes
    · exact fails_of_list hgiven hdisk rfl (harg List.mem_cons_self) (.inr rfl) h
    · exact fails_of_list hgiven hdisk rfl (harg List.mem_cons_self) (.inl (harg (by simp))) h
    · simp [takes] at htakes
  | exist =>
    obtain ⟨v, rfl⟩ := List.length_eq_one_iff.mp (by simpa [takes] using htakes)
    rcases bind_eq_error h with h | ⟨p, -, h⟩
    · exact fails_of_admittedPath hgiven (harg List.mem_cons_self) h
    · cases h
  | parseFilename =>
    obtain ⟨v, rfl⟩ := List.length_eq_one_iff.mp (by simpa [takes] using htakes)
    rcases bind_eq_error h with h | ⟨p, -, h⟩
    · exact fails_of_requireString hgiven (harg List.mem_cons_self) h
    · cases h
  | info =>
    obtain ⟨v, rfl⟩ := List.length_eq_one_iff.mp (by simpa [takes] using htakes)
    rcases bind_eq_error h with h | ⟨p, hp, hopened⟩
    · exact fails_of_admittedPath hgiven (harg List.mem_cons_self) h
    obtain ⟨isQuoted, rfl⟩ := string_of_admittedPath hp
    rcases bind_eq_error hopened with hopened | ⟨found, -, hopened⟩
    · obtain ⟨failure, hlookup, rfl⟩ := eq_error_of_mapError hopened
      exact fails_of_readFailure rfl (harg List.mem_cons_self)
        fun hnul => Disk.lookup_eq_nul (hnul ▸ hlookup)
    · cases hopened
  | contents =>
    obtain ⟨v, rfl⟩ := List.length_eq_one_iff.mp (by simpa [takes] using htakes)
    rcases bind_eq_error h with h | ⟨p, hp, hopened⟩
    · exact fails_of_admittedPath hgiven (harg List.mem_cons_self) h
    obtain ⟨isQuoted, rfl⟩ := string_of_admittedPath hp
    rcases bind_eq_error hopened with hopened | ⟨text, -, hopened⟩
    · obtain ⟨failure, hread, rfl⟩ := eq_error_of_mapError hopened
      exact fails_of_readFailure rfl (harg List.mem_cons_self)
        fun hnul => Disk.readText_eq_nul (hnul ▸ hread)
    · cases hopened

/-- A query answers with a value, unless a value that it shows holds an integer beyond the doubles
or a path that it opens has an impossible character in it.  This is about strings that are made of
whole characters and values that are not nested too deep for a machine to show them. -/
theorem answer_value_unless (hdisk : c.disk.Possible) {q : Query} {args : List Value}
    (htakes : q.takes args.length) (hgiven : ∀ v, Given registered q args v → v ≠ .foreign) :
    (∃ v, answer c registered q args = .ok v) ∨
      (answer c registered q args = .error .tooLarge ∧
        ∃ v, Given registered q args v ∧ v.HoldsHuge) ∨
      (answer c registered q args = .error (.read .nulInPath) ∧ q.opens ∧
        ∃ t isQuoted, .string t isQuoted ∈ args ∧ Text.HasNul t) := by
  unfold answer
  cases hcompute : compute c registered q args with
  | ok v => exact .inl ⟨v, rfl⟩
  | error e =>
    cases compute_eq_error hdisk htakes hgiven hcompute with
    | promised e => exact .inl ⟨_, rfl⟩
    | tooLarge hv hhuge => exact .inr (.inl ⟨rfl, _, hv, hhuge⟩)
    | nul hopens hv hnul =>
      rcases hv with hv | ⟨rfl, -⟩
      · exact .inr (.inr ⟨rfl, hopens, _, _, hv, hnul⟩)
      · cases hopens

/-- A directory is listed with a value. -/
theorem listFiles_answers_value :
    let d : Disk := { top := [(['a'], .file [] 0)] }
    ∃ v, answer ⟨d, .roots [['/']], {}⟩ none .listFiles [.quoted ['/'], .quoted ['*']] = .ok v := by
  intro d
  have hdisk : d.Possible := by
    intro place es h e he
    cases place with
    | nil =>
      obtain rfl : d.top = es := by simpa [Disk.root] using h
      obtain rfl := List.mem_singleton.mp he
      unfold Text.HasNul
      decide
    | cons name names =>
      -- The only entry is a file, which nothing is below.
      simp only [d, Disk.root, Node.at?] at h
      split at h
      · rename_i child hchild
        have hfile : child = .file [] 0 := by
          simp only [Entries.get?, Entries.getBy?] at hchild
          split_ifs at hchild
          exact (Option.some.inj hchild).symm
        subst hfile
        cases names <;> simp [Node.at?] at h
      · cases h
  have hstring {v : Value} (hv : Given none .listFiles [.quoted ['/'], .quoted ['*']] v) :
      v = .quoted ['/'] ∨ v = .quoted ['*'] := by
    simpa [Given] using hv
  refine (answer_value_unless hdisk rfl fun v hv => ?_).resolve_right ?_
  · rcases hstring hv with rfl | rfl <;> simp
  · rintro (⟨-, v, hv, n, -, hholds⟩ | ⟨-, -, t, isQuoted, hv, hnul⟩)
    · rcases hstring hv with rfl | rfl <;> cases hholds
    · rcases hstring (.inl hv) with ht | ht <;> cases ht <;>
        exact absurd hnul (by unfold Text.HasNul; decide)

theorem answer_join_singleton {v : Value} (h : v.requireString = .error .tooLarge) :
    answer c registered .join [v] = .error .tooLarge := by
  have hmap : [v].mapM Value.requireString = .error .tooLarge := by
    rw [List.mapM_cons, h]
    rfl
  show asValue (([v].mapM Value.requireString).bind _) = _
  rw [hmap]
  rfl

/-- Joining an integer beyond the doubles fails, and so does reading a path with an impossible
character in it. -/
theorem failures_without_value :
    let c : QueryContext := ⟨{}, .unrestricted, {}⟩
    answer c none .join [.number (.integer (2 ^ 1024)) []] = .error .tooLarge ∧
      answer c none .contents [.quoted ['\x00']] = .error (.read .nulInPath) := by
  intro c
  have hdisplay : (Value.number (.integer (2 ^ 1024)) []).display = none := by
    have hpow (k : Nat) : ((2 : Int) ^ k).natAbs = 2 ^ k := Int.natAbs_pow 2 k
    refine Value.display_eq_none.mpr ⟨2 ^ 1024, ?_, .number []⟩
    rw [hpow]
    exact Double.beyond_le_pow
  refine ⟨answer_join_singleton ?_, rfl⟩
  simp only [Value.requireString, Value.typeName, hdisplay]

end Query

end StyleImport
