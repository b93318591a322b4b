/-
Each file has one text, and is imported for the first time once.

Imports of one compilation are called at any time and take turns in any order, while the reads that
they wait for end and the files change under their feet.  `ImportRun` is a compilation in the middle
of this, with the results so far.

* `ImportRun.map_turn`, `ImportRun.exists_turns` — the runs are those of the imports' own tasks, one
  after the other or interleaved;
* `ImportRun.Sound` — the invariant: what an importer found itself is a text that the desk holds, or
  a registration, and the files that are marked are those that were found;
* `ImportRun.import_once` — what holds of every run.
-/
import Mathlib.Data.Nat.Find
import StyleImport.Proofs.Import.Turn

namespace StyleImport

/-! ### Runs of imports -/

/-- A compilation in the middle of its imports. -/
structure ImportRun (σ : Type) where
  /-- What the imports share. -/
  compilation : Compilation σ
  /-- Everyone who asked for an import so far. -/
  calls : List (Task (Resolved × Finder)) := []
  /-- What importers found themselves, each with the position of its call, in the order in which it
  came. -/
  found : List (Nat × Resolved) := []

/-- What can happen next. -/
inductive ImportStep (σ : Type) where
  /-- Someone asks for an import, with settings of their own and a host that may take its time. -/
  | call (settings : Settings) (unified slow : Bool) (identifier prev : Text)
  /-- A call has its turn. -/
  | turn (k : Nat)
  /-- The read that a call waits for ends. -/
  | readEnds (k : Nat)
  /-- Something happens to the files, to the registry or to the host. -/
  | change (f : σ → σ)

namespace ImportRun

variable {σ : Type}

/-- The plan of a call.  Whether repeated imports are marked is the same for all calls. -/
def plan (cwd : Text) (once : Bool) (settings : Settings) (unified slow : Bool)
    (identifier prev : Text) : Plan (Resolved × Finder) :=
  let i : Importer := ⟨cwd, { settings with enableImportOnce := once }, unified⟩
  let p := (i.resolve identifier prev).attributed .importer
  if slow then p.unhurried else p

/-- The run after a turn of a call; one that is over has no more turns. -/
def turn (r : ImportRun σ) (k : Nat) : ImportRun σ :=
  match r.calls[k]? with
  | none | some (.finished _) => r
  | some task =>
    let after := task.step r.compilation
    { compilation := after.2
      calls := r.calls.set k after.1
      found := r.found ++ (after.1.own?.map fun x => (k, x)).toList }

/-- The run after the end of the read that a call waits for. -/
def readEnds (r : ImportRun σ) (k : Nat) : ImportRun σ :=
  match r.calls[k]? with
  | some (.waiting p ticket _) => { r with compilation := (r.compilation.complete p ticket).2 }
  | _ => r

/-- One step of a run. -/
def step (once : Bool) (r : ImportRun σ) : ImportStep σ → ImportRun σ
  | .call settings unified slow identifier prev =>
    { r with calls := r.calls ++
        [.ready (plan r.compilation.cwd once settings unified slow identifier prev)] }
  | .turn k => r.turn k
  | .readEnds k => r.readEnds k
  | .change f => { r with compilation := { r.compilation with state := f r.compilation.state } }

/-- A run of any length, in any order. -/
def steps (once : Bool) (r : ImportRun σ) (ss : List (ImportStep σ)) : ImportRun σ :=
  ss.foldl (step once) r

/-- The run before the first import, on a fresh session. -/
def start (cwd : Text) (host : Host σ) (state : σ) : ImportRun σ :=
  { compilation := { cwd, host, session := {}, state } }

/-! ### Runs are runs of tasks -/

/-- A turn is a turn of the tasks that say nothing of their finders. -/
theorem map_turn (r : ImportRun σ) (k : Nat) :
    ((r.turn k).calls.map (Task.map Prod.fst), (r.turn k).compilation)
      = Task.stepAt (r.calls.map (Task.map Prod.fst)) r.compilation k := by
  unfold turn Task.stepAt
  rw [List.getElem?_map]
  rcases hk : r.calls[k]? with _ | task
  · rfl
  · have hstep := Task.map_step Prod.fst task r.compilation
    dsimp only [Option.map_some]
    rw [hstep]
    cases task with
    | ready plan => rw [List.map_set]
    | waiting p n next => rw [List.map_set]
    | finished result =>
      -- Here a task that is over is left alone, there it is replaced by itself.
      obtain ⟨hlt, hget⟩ := List.getElem?_eq_some_iff.mp hk
      have hset : (r.calls.map (Task.map Prod.fst)).set k (Task.map Prod.fst (.finished result))
          = r.calls.map (Task.map Prod.fst) := by
        rw [← List.map_set, ← hget, List.set_getElem_self]
      exact Prod.ext hset.symm rfl

/-- Without what it says of the finder, the plan of a call is that of its import. -/
theorem map_plan (cwd : Text) (once : Bool) (settings : Settings) (unified slow : Bool)
    (identifier prev : Text) :
    let i : Importer := ⟨cwd, { settings with enableImportOnce := once }, unified⟩
    (plan cwd once settings unified slow identifier prev).map Prod.fst
      = if slow then (i.resolve identifier prev).unhurried else i.resolve identifier prev := by
  intro i
  unfold plan
  dsimp only
  split
  · rw [Plan.map_unhurried, Plan.map_attributed]
  · rw [Plan.map_attributed]

theorem turn_of_getElem? {r : ImportRun σ} {k : Nat} {t : Task (Resolved × Finder)}
    (hk : r.calls[k]? = some t) :
    (r.turn k).calls[k]? = some (t.step r.compilation).1 ∧
      (r.turn k).compilation = (t.step r.compilation).2 := by
  have hlt : k < r.calls.length := (List.getElem?_eq_some_iff.mp hk).1
  unfold turn
  rw [hk]
  cases t with
  | ready plan => exact ⟨List.getElem?_set_self hlt, rfl⟩
  | waiting p n next => exact ⟨List.getElem?_set_self hlt, rfl⟩
  | finished result => exact ⟨hk, rfl⟩

/-- A call that nobody interrupts comes to its end, as it does without turns. -/
theorem exists_turns (once : Bool) {r : ImportRun σ} {k : Nat} {t : Task (Resolved × Finder)}
    (hk : r.calls[k]? = some t) :
    ∃ n, (r.steps once (List.replicate n (.turn k))).calls[k]?
        = some (.finished (t.finish r.compilation).1) ∧
      (r.steps once (List.replicate n (.turn k))).compilation = (t.finish r.compilation).2 := by
  obtain ⟨n, hn⟩ := t.exists_turns_finish r.compilation
  have hturns : ∀ n (r : ImportRun σ) t, r.calls[k]? = some t →
      (r.steps once (List.replicate n (.turn k))).calls[k]?
          = some (Task.turns n t r.compilation).1 ∧
        (r.steps once (List.replicate n (.turn k))).compilation
          = (Task.turns n t r.compilation).2 := by
    intro n
    induction n with
    | zero => exact fun r t hk => ⟨hk, rfl⟩
    | succ n ih =>
      intro r t hk
      obtain ⟨hcall, hcompilation⟩ := turn_of_getElem? hk
      have hrest := ih (r.turn k) _ hcall
      rw [hcompilation] at hrest
      exact hrest
  have hend := hturns n r t hk
  rw [hn] at hend
  exact ⟨n, hend⟩

/-! ### Results against marks -/

/-- The files that are marked, against the results so far in the order in which they came. -/
structure Tallied (once : Bool) (imported : List Text) (found : List (Nat × Resolved)) : Prop where
  /-- No call has two results. -/
  nodup : (found.map Prod.fst).Nodup
  /-- The files that are marked are those that were found. -/
  marked : ∀ {file : Text}, file ∈ imported ↔ ∃ k x, (k, x) ∈ found ∧ x.file = file
  /-- Only what was found before is said to be imported already. -/
  already : ∀ {n k : Nat} {x : Resolved}, found[n]? = some (k, x) →
    (x.alreadyImported = true ↔
      once = true ∧ ∃ m j y, m < n ∧ found[m]? = some (j, y) ∧ y.file = x.file)

namespace Tallied

theorem empty (once : Bool) : Tallied once [] [] where
  nodup := List.nodup_nil
  marked := by simp
  already h := by simp at h

variable {once : Bool} {imported : List Text} {found : List (Nat × Resolved)}

theorem contains_iff (h : Tallied once imported found) (file : Text) :
    imported.contains file = true ↔
      ∃ m j y, m < found.length ∧ found[m]? = some (j, y) ∧ y.file = file := by
  rw [List.contains_iff_mem, h.marked]
  constructor
  · rintro ⟨k, x, hx, hfile⟩
    obtain ⟨m, hm, hget⟩ := List.getElem_of_mem hx
    exact ⟨m, k, x, hm, by rw [List.getElem?_eq_getElem hm, hget], hfile⟩
  · rintro ⟨m, j, y, _, hget, hfile⟩
    exact ⟨j, y, List.mem_of_getElem? hget, hfile⟩

/-- One more result, said to be imported already if its file is marked, and its file marked. -/
theorem concat (h : Tallied once imported found) {k : Nat} {x : Resolved}
    (hk : k ∉ found.map Prod.fst) (hx : x.alreadyImported = (once && imported.contains x.file)) :
    Tallied once (if imported.contains x.file then imported else imported ++ [x.file])
      (found ++ [(k, x)]) where
  nodup := by
    rw [List.map_append, List.nodup_append]
    refine ⟨h.nodup, by simp, ?_⟩
    intro j hj j' hj'
    obtain rfl : j' = k := by simpa using hj'
    rintro rfl
    exact hk hj
  marked := by
    intro file
    have hmem : file ∈ (if imported.contains x.file then imported else imported ++ [x.file]) ↔
        file ∈ imported ∨ x.file = file := by
      split
      · rename_i hold
        constructor
        · exact .inl
        · rintro (hfile | rfl)
          · exact hfile
          · exact List.contains_iff_mem.mp hold
      · rw [List.mem_append, List.mem_singleton, eq_comm]
    rw [hmem, h.marked]
    constructor
    · rintro (⟨j, y, hy, hfile⟩ | hfile)
      · exact ⟨j, y, List.mem_append_left _ hy, hfile⟩
      · exact ⟨k, x, List.mem_append_right _ List.mem_cons_self, hfile⟩
    · rintro ⟨j, y, hy, hfile⟩
      rcases List.mem_append.mp hy with hy | hy
      · exact .inl ⟨j, y, hy, hfile⟩
      · obtain ⟨_, rfl⟩ : j = k ∧ y = x := by simpa using hy
        exact .inr hfile
  already := by
    intro n j y hn
    have hlen : n < found.length + 1 := by simpa using (List.getElem?_eq_some_iff.mp hn).1
    -- What comes before a result is not the new one.
    have hsame : (∃ m j' y', m < n ∧ (found ++ [(k, x)])[m]? = some (j', y') ∧ y'.file = y.file) ↔
        ∃ m j' y', m < n ∧ found[m]? = some (j', y') ∧ y'.file = y.file := by
      constructor
      · rintro ⟨m, j', y', hm, hget, hfile⟩
        rcases ReadDesk.getElem?_concat.mp hget with hget | ⟨hlast, _⟩
        · exact ⟨m, j', y', hm, hget, hfile⟩
        · omega
      · rintro ⟨m, j', y', hm, hget, hfile⟩
        exact ⟨m, j', y', hm, ReadDesk.getElem?_concat.mpr (.inl hget), hfile⟩
    rw [hsame]
    rcases ReadDesk.getElem?_concat.mp hn with hn | ⟨rfl, hlast⟩
    · exact h.already hn
    · obtain ⟨rfl, rfl⟩ := Prod.mk.inj hlast
      rw [hx, Bool.and_eq_true, h.contains_iff]

/-- For each file that was found, one call was the first. -/
theorem exists_unique_first (h : Tallied true imported found) {k : Nat} {x : Resolved}
    (hx : (k, x) ∈ found) :
    ∃! j, ∃ y, (j, y) ∈ found ∧ y.file = x.file ∧ y.alreadyImported = false := by
  classical
  have hexists : ∃ (n j : Nat) (y : Resolved), found[n]? = some (j, y) ∧ y.file = x.file := by
    obtain ⟨n, hn, hget⟩ := List.getElem_of_mem hx
    exact ⟨n, k, x, by rw [List.getElem?_eq_getElem hn, hget], rfl⟩
  -- The call is that of the first result for the file.
  obtain ⟨j, y, hget, hfile⟩ := Nat.find_spec hexists
  refine ⟨j, ⟨y, List.mem_of_getElem? hget, hfile, ?_⟩, ?_⟩
  · rw [← Bool.not_eq_true, h.already hget]
    rintro ⟨_, m, j', y', hm, hget', hfile'⟩
    exact Nat.find_min hexists hm ⟨j', y', hget', hfile'.trans hfile⟩
  · rintro j' ⟨y', hmem, hfile', hnot⟩
    obtain ⟨n, hn, hget'⟩ := List.getElem_of_mem hmem
    have hn' : found[n]? = some (j', y') := by rw [List.getElem?_eq_getElem hn, hget']
    have hle : Nat.find hexists ≤ n := Nat.find_le ⟨j', y', hn', hfile'⟩
    rcases Nat.lt_or_ge (Nat.find hexists) n with hlt | hge
    · -- A later result for the file is not the first.
      rw [← Bool.not_eq_true, h.already hn'] at hnot
      exact absurd ⟨rfl, _, j, y, hlt, hget, hfile.trans hfile'.symm⟩ hnot
    · obtain rfl : n = Nat.find hexists := by omega
      rw [hget, Option.some.injEq, Prod.mk.injEq] at hn'
      exact hn'.1.symm

end Tallied

/-! ### The invariant of runs -/

/-- What holds after every step; `reads` are the keys that the reader was called with. -/
structure Sound (once : Bool) (reads : List Text) (r : ImportRun σ) : Prop where
  /-- The working directory is absolute. -/
  absolute : Path.isAbsolute r.compilation.cwd = true
  /-- The desk is in order. -/
  inOrder : r.compilation.session.desk.InOrder reads
  /-- Calls deliver. -/
  delivers : ∀ {k : Nat} {t : Task (Resolved × Finder)}, r.calls[k]? = some t →
    t.Delivers r.compilation.cwd once r.compilation.session.desk reads
  /-- What was found is the result of its call. -/
  own : ∀ {k : Nat} {x : Resolved}, (k, x) ∈ r.found ↔
    r.calls[k]? = some (.finished (.ok (x, .importer)))
  /-- What was found is a text that the desk holds, or a registration. -/
  genuine : ∀ {k : Nat} {x : Resolved}, (k, x) ∈ r.found →
    Genuine r.compilation.cwd (r.compilation.session.desk.Holds reads) x
  /-- Marks and results go together. -/
  tallied : Tallied once r.compilation.session.imported r.found

theorem sound_start (once : Bool) {cwd : Text} (hcwd : Path.isAbsolute cwd = true) (host : Host σ)
    (state : σ) : Sound once [] (start cwd host state) where
  absolute := hcwd
  inOrder := ReadDesk.inOrder_empty
  delivers h := by simp [start] at h
  own := by simp [start]
  genuine h := by simp [start] at h
  tallied := Tallied.empty once

variable {once : Bool} {reads reads' : List Text} {r : ImportRun σ}

theorem delivers_plan {cwd : Text} (hcwd : Path.isAbsolute cwd = true) (once : Bool)
    (settings : Settings) (unified slow : Bool) (identifier prev : Text)
    (known : Text → Text → Prop) :
    (plan cwd once settings unified slow identifier prev).Delivers cwd once known := by
  let i : Importer := ⟨cwd, { settings with enableImportOnce := once }, unified⟩
  have h : ((i.resolve identifier prev).attributed .importer).Delivers i.cwd
      i.settings.enableImportOnce known := Importer.delivers_resolve hcwd identifier prev
  unfold plan
  cases slow with
  | false => exact h
  | true => exact h.unhurried

/-- Someone asks for an import. -/
theorem Sound.call (h : r.Sound once reads) (settings : Settings) (unified slow : Bool)
    (identifier prev : Text) :
    (r.step once (.call settings unified slow identifier prev)).Sound once reads where
  absolute := h.absolute
  inOrder := h.inOrder
  delivers := by
    intro k t ht
    rcases ReadDesk.getElem?_concat.mp ht with ht | ⟨_, rfl⟩
    · exact h.delivers ht
    · exact delivers_plan h.absolute once settings unified slow identifier prev _
  own := by
    intro k x
    show (k, x) ∈ r.found ↔ (r.calls ++ [_])[k]? = _
    rw [h.own, ReadDesk.getElem?_concat]
    constructor
    · exact .inl
    · rintro (hk | ⟨_, hready⟩)
      · exact hk
      · simp at hready
  genuine := h.genuine
  tallied := h.tallied

/-- Only the desk changes, and it grows. -/
theorem Sound.of_grows (h : r.Sound once reads) {s : Compilation σ}
    (hcwd : s.cwd = r.compilation.cwd)
    (himported : s.session.imported = r.compilation.session.imported)
    (hord : s.session.desk.InOrder reads')
    (hgrows : r.compilation.session.desk.Grows reads s.session.desk reads') :
    ({ r with compilation := s } : ImportRun σ).Sound once reads' where
  absolute := hcwd ▸ h.absolute
  inOrder := hord
  delivers := by
    intro k t ht
    show t.Delivers s.cwd once s.session.desk reads'
    rw [hcwd]
    exact (h.delivers ht).mono hgrows
  own := h.own
  genuine := by
    intro k x hx
    show Genuine s.cwd (s.session.desk.Holds reads') x
    rw [hcwd]
    exact (h.genuine hx).mono fun _ _ => hgrows.holds
  tallied := by
    show Tallied once s.session.imported r.found
    rw [himported]
    exact h.tallied

theorem Sound.readEnds (h : r.Sound once reads) (k : Nat) : (r.readEnds k).Sound once reads := by
  unfold ImportRun.readEnds
  split
  · rename_i p n next hk
    have hn := (List.getElem?_eq_some_iff.mp (h.delivers hk).1).1
    obtain ⟨hord, hgrows, _, himported, hcwd⟩ := Compilation.session_complete h.inOrder hn p
    exact h.of_grows hcwd himported hord hgrows
  · exact h

/-- A call that is not over has no result yet. -/
theorem Sound.not_mem_found (h : r.Sound once reads) {k : Nat} {t : Task (Resolved × Finder)}
    (hk : r.calls[k]? = some t) (hunfinished : ∀ result, t ≠ .finished result) (x : Resolved) :
    (k, x) ∉ r.found := by
  intro hx
  rw [h.own, hk, Option.some.injEq] at hx
  exact hunfinished _ hx

/-- A call has its turn, and finds nothing. -/
theorem Sound.turn_of_none (h : r.Sound once reads) {k : Nat} {t t' : Task (Resolved × Finder)}
    (hk : r.calls[k]? = some t) (hunfinished : ∀ result, t ≠ .finished result)
    {s : Compilation σ} (hadv : Compilation.Advanced once reads r.compilation reads' t' s)
    (hown : t'.own? = none) :
    ({ r with compilation := s, calls := r.calls.set k t' } : ImportRun σ).Sound once reads' := by
  have hgrown := h.of_grows hadv.cwd_eq (hadv.unmarked hown) hadv.inOrder hadv.grows
  have hlt : k < r.calls.length := (List.getElem?_eq_some_iff.mp hk).1
  refine ⟨hgrown.absolute, hgrown.inOrder, ?_, ?_, hgrown.genuine, hgrown.tallied⟩
  · intro j t₁ hj
    by_cases hjk : j = k
    · subst hjk
      obtain rfl : t' = t₁ := by simpa [hlt] using hj
      exact hadv.cwd_eq ▸ hadv.delivers
    · rw [List.getElem?_set_ne (Ne.symm hjk)] at hj
      exact hgrown.delivers hj
  · intro j x
    by_cases hjk : j = k
    · subst hjk
      rw [List.getElem?_set_self hlt, Option.some.injEq, ← Task.own?_eq_some, hown]
      exact ⟨fun hx => absurd hx (h.not_mem_found hk hunfinished x), by simp⟩
    · rw [List.getElem?_set_ne (Ne.symm hjk)]
      exact h.own

/-- A call has its turn, and has found a file. -/
theorem Sound.turn_of_some (h : r.Sound once reads) {k : Nat} {t t' : Task (Resolved × Finder)}
    (hk : r.calls[k]? = some t) (hunfinished : ∀ result, t ≠ .finished result)
    {s : Compilation σ} (hadv : Compilation.Advanced once reads r.compilation reads' t' s)
    {x : Resolved} (hown : t'.own? = some x) :
    ({ compilation := s, calls := r.calls.set k t', found := r.found ++ [(k, x)] } :
      ImportRun σ).Sound once reads' := by
  obtain ⟨hgenuine, hflag, himported⟩ := hadv.marked hown
  -- The mark was set on this turn, and the result is the last one: nobody came in between.
  have hnew : ∀ x', (k, x') ∉ r.found := h.not_mem_found hk hunfinished
  have hlt : k < r.calls.length := (List.getElem?_eq_some_iff.mp hk).1
  refine ⟨hadv.cwd_eq ▸ h.absolute, hadv.inOrder, ?_, ?_, ?_, ?_⟩
  · intro j t₁ hj
    show t₁.Delivers s.cwd once s.session.desk reads'
    rw [hadv.cwd_eq]
    by_cases hjk : j = k
    · subst hjk
      obtain rfl : t' = t₁ := by simpa [hlt] using hj
      exact hadv.delivers
    · rw [List.getElem?_set_ne (Ne.symm hjk)] at hj
      exact (h.delivers hj).mono hadv.grows
  · intro j x'
    rw [List.mem_append, List.mem_singleton, Prod.mk.injEq]
    by_cases hjk : j = k
    · subst hjk
      rw [List.getElem?_set_self hlt, Option.some.injEq, ← Task.own?_eq_some, hown,
        Option.some.injEq]
      constructor
      · rintro (hx | ⟨_, rfl⟩)
        · exact absurd hx (hnew x')
        · rfl
      · rintro rfl
        exact .inr ⟨rfl, rfl⟩
    · rw [List.getElem?_set_ne (Ne.symm hjk), ← h.own]
      constructor
      · rintro (hx | ⟨rfl, _⟩)
        · exact hx
        · exact absurd rfl hjk
      · exact .inl
  · intro j x' hx'
    show Genuine s.cwd (s.session.desk.Holds reads') x'
    rw [hadv.cwd_eq]
    rcases List.mem_append.mp hx' with hx' | hx'
    · exact (h.genuine hx').mono fun _ _ => hadv.grows.holds
    · obtain ⟨_, rfl⟩ : j = k ∧ x' = x := by simpa using hx'
      exact hgenuine
  · show Tallied once s.session.imported (r.found ++ [(k, x)])
    rw [himported]
    refine h.tallied.concat ?_ hflag
    rw [List.mem_map]
    rintro ⟨⟨_, x'⟩, hx', rfl⟩
    exact hnew x' hx'

theorem Sound.turn (h : r.Sound once reads) (k : Nat) :
    ∃ reads', (r.turn k).Sound once reads' := by
  have hstep : ∀ t, r.calls[k]? = some t → (∀ result, t ≠ .finished result) →
      ∃ reads', ({ compilation := (t.step r.compilation).2
                   calls := r.calls.set k (t.step r.compilation).1
                   found := r.found ++
                    ((t.step r.compilation).1.own?.map fun x => (k, x)).toList } :
        ImportRun σ).Sound once reads' := by
    intro t hk hunfinished
    obtain ⟨reads', hadv⟩ := Compilation.advanced_step h.inOrder (h.delivers hk) hunfinished
    refine ⟨reads', ?_⟩
    cases hown : (t.step r.compilation).1.own? with
    | none =>
      rw [Option.map_none, Option.toList_none, List.append_nil]
      exact h.turn_of_none hk hunfinished hadv hown
    | some x => exact h.turn_of_some hk hunfinished hadv hown
  unfold ImportRun.turn
  split
  · exact ⟨reads, h⟩
  · exact ⟨reads, h⟩
  · rename_i t hnot hk
    exact hstep t hk hnot

theorem Sound.step (h : r.Sound once reads) (s : ImportStep σ) :
    ∃ reads', (r.step once s).Sound once reads' := by
  cases s with
  | call settings unified slow identifier prev =>
    exact ⟨reads, h.call settings unified slow identifier prev⟩
  | turn k => exact h.turn k
  | readEnds k => exact ⟨reads, h.readEnds k⟩
  | change f =>
    exact ⟨reads, h.of_grows rfl rfl h.inOrder (ReadDesk.Grows.refl _ _)⟩

theorem Sound.steps (h : r.Sound once reads) (ss : List (ImportStep σ)) :
    ∃ reads', (r.steps once ss).Sound once reads' := by
  induction ss generalizing r reads with
  | nil => exact ⟨reads, h⟩
  | cons s ss ih =>
    obtain ⟨reads', h'⟩ := h.step s
    exact ih h'

/-! ### What holds of every run -/

/-- **A file is imported once, with one text.**  In every run of imports that share a session, with
calls at any time, turns in any order, reads that end at any time with a text or a failure, and
files, registry and host that change between the steps, look at the results that importers found
themselves, in the order in which they came:

* they are the results of the calls, each of one call;
* two results of one file have the same contents;
* if repeated imports are marked, a result is marked exactly if one of the same file came before it,
  so that for each file one call has a result that is not marked;
* otherwise none is marked. -/
theorem import_once {cwd : Text} (hcwd : Path.isAbsolute cwd = true) (once : Bool) (host : Host σ)
    (state : σ) (ss : List (ImportStep σ)) :
    let r := steps once (start cwd host state) ss
    ((∀ k x, (k, x) ∈ r.found ↔ r.calls[k]? = some (.finished (.ok (x, .importer)))) ∧
      (r.found.map Prod.fst).Nodup) ∧
    (∀ k j x y, (k, x) ∈ r.found → (j, y) ∈ r.found → x.file = y.file → x.contents = y.contents) ∧
    (once = true →
      (∀ (n k : Nat) x, r.found[n]? = some (k, x) → (x.alreadyImported = true ↔
        ∃ m j y, m < n ∧ r.found[m]? = some (j, y) ∧ y.file = x.file)) ∧
      ∀ k x, (k, x) ∈ r.found →
        ∃! j, ∃ y, (j, y) ∈ r.found ∧ y.file = x.file ∧ y.alreadyImported = false) ∧
    (once = false → ∀ k x, (k, x) ∈ r.found → x.alreadyImported = false) := by
  intro r
  obtain ⟨reads, h⟩ : ∃ reads, r.Sound once reads := (sound_start once hcwd host state).steps ss
  refine ⟨⟨fun k x => h.own, h.tallied.nodup⟩, ?_, ?_, ?_⟩
  · intro k j x y hx hy hfile
    -- Registrations tell their contents by their names, and of other files the desk holds one text.
    refine (h.genuine hx).contents_eq ?_ (h.genuine hy) hfile
    exact fun _ _ _ => h.inOrder.holds_unique
  · rintro rfl
    refine ⟨fun n k x hn => ?_, fun k x hx => h.tallied.exists_unique_first hx⟩
    rw [h.tallied.already hn]
    exact ⟨fun hm => hm.2, fun hm => ⟨rfl, hm⟩⟩
  · rintro rfl k x hx
    obtain ⟨n, hn, hget⟩ := List.getElem_of_mem hx
    have hn' : r.found[n]? = some (k, x) := by rw [List.getElem?_eq_getElem hn, hget]
    rw [← Bool.not_eq_true, h.tallied.already hn']
    rintro ⟨hfalse, _⟩
    exact absurd hfalse Bool.false_ne_true

/-- Two calls join the read of one file, and the second is the first to have it. -/
theorem import_once_of_race :
    let host : Host Unit :=
      { isFile := fun _ _ => true, lookup := fun _ _ s => (.ok none, s)
        read := fun _ s => (.ok ['x'], s), ask := fun _ _ s => (.ok none, s), note := fun _ s => s }
    let call : ImportStep Unit := .call { root := ['/'] } false false ['a'] []
    let r := steps true (start ['/'] host ()) [call, call, .turn 0, .turn 1, .turn 0, .turn 1,
      .turn 1, .turn 0]
    r.found = [(1, ⟨['x'], ['/', 'a'], false⟩), (0, ⟨['x'], ['/', 'a'], true⟩)] ∧
      ∃! j, ∃ y, (j, y) ∈ r.found ∧ y.file = ['/', 'a'] ∧ y.alreadyImported = false := by
  intro host call r
  have hfound : r.found = [(1, ⟨['x'], ['/', 'a'], false⟩), (0, ⟨['x'], ['/', 'a'], true⟩)] := by
    simp only [r, call, host]
    decide +kernel
  refine ⟨hfound, ?_⟩
  exact ((import_once rfl true host () _).2.2.1 rfl).2 1 ⟨['x'], ['/', 'a'], false⟩
    (hfound ▸ List.mem_cons_self)

end ImportRun

end StyleImport
