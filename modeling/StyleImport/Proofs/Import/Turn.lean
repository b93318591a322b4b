/-
What a turn of an import can do to the session.

* `Task.Delivers` — a task that delivers, with the texts that the desk holds;
* `Compilation.Advanced` — what may be different after a turn;
* `Compilation.advanced_step` — every turn of a task that delivers keeps to this.

A file is marked on the very turn on which it is found, and nobody else has a turn in between.
-/
import StyleImport.Proofs.Import.Delivery
import StyleImport.Proofs.Import.ReadDesk

namespace StyleImport

namespace Task

/-- The result of a task, if its importer found it itself. -/
def own? : Task (Resolved × Finder) → Option Resolved
  | finished (.ok (r, .importer)) => some r
  | _ => none

theorem own?_eq_some {t : Task (Resolved × Finder)} {r : Resolved} :
    t.own? = some r ↔ t = .finished (.ok (r, .importer)) := by
  constructor
  · intro h
    unfold own? at h
    split at h
    · rw [Option.some.injEq] at h
      rw [h]
    · simp at h
  · rintro rfl
    rfl

/-- A task that delivers, with the texts that the desk holds.  If it waits for a read, the ticket is
that of a read of the key that it came for. -/
def Delivers (cwd : Text) (once : Bool) (d : ReadDesk) (reads : List Text) :
    Task (Resolved × Finder) → Prop
  | ready plan => plan.Delivers cwd once (d.Holds reads)
  | waiting p ticket next => reads[ticket]? = some (Path.absolute cwd p) ∧
    (Plan.read p next).Delivers cwd once (d.Holds reads)
  | finished _ => True

theorem Delivers.mono {cwd : Text} {once : Bool} {d d' : ReadDesk} {reads reads' : List Text}
    (hgrows : d.Grows reads d' reads') {t : Task (Resolved × Finder)}
    (h : t.Delivers cwd once d reads) : t.Delivers cwd once d' reads' := by
  cases t with
  | ready plan => exact Plan.Delivers.mono (fun _ _ => hgrows.holds) h
  | waiting p ticket next =>
    obtain ⟨hcall, hplan⟩ := h
    have hplan' := Plan.Delivers.mono (fun _ _ => hgrows.holds) hplan
    exact ⟨ReadDesk.getElem?_mono hgrows.reads hcall, hplan'⟩
  | finished r => trivial

end Task

namespace Compilation

variable {σ : Type}

/-- What one turn of a task can do: `s'` is the compilation after it and `t` what is left of the
task.  The desk may have grown, and a file is marked exactly if the importer found it itself. -/
structure Advanced (once : Bool) (reads : List Text) (s : Compilation σ) (reads' : List Text)
    (t : Task (Resolved × Finder)) (s' : Compilation σ) : Prop where
  cwd_eq : s'.cwd = s.cwd
  inOrder : s'.session.desk.InOrder reads'
  grows : s.session.desk.Grows reads s'.session.desk reads'
  delivers : t.Delivers s.cwd once s'.session.desk reads'
  unmarked : t.own? = none → s'.session.imported = s.session.imported
  marked : ∀ {r}, t.own? = some r →
    Genuine s.cwd (s'.session.desk.Holds reads') r ∧
      r.alreadyImported = (once && s.session.imported.contains r.file) ∧
      s'.session.imported = if s.session.imported.contains r.file then s.session.imported
        else s.session.imported ++ [r.file]

variable {once : Bool} {reads reads' : List Text} {s s₁ s' : Compilation σ}
  {t : Task (Resolved × Finder)}

/-- What happens before a turn and only makes the desk grow may be counted in. -/
theorem Advanced.of_grows (h : Advanced once reads' s₁ reads t s') (hcwd : s₁.cwd = s.cwd)
    (himported : s₁.session.imported = s.session.imported)
    {reads₀ : List Text} (hgrows : s.session.desk.Grows reads₀ s₁.session.desk reads') :
    Advanced once reads₀ s reads t s' where
  cwd_eq := h.cwd_eq.trans hcwd
  inOrder := h.inOrder
  grows := hgrows.trans h.grows
  delivers := hcwd ▸ h.delivers
  unmarked hnone := (h.unmarked hnone).trans himported
  marked := by
    intro r hr
    have hmarked := h.marked hr
    rw [hcwd, himported] at hmarked
    exact hmarked

theorem advanced_fail (hord : s.session.desk.InOrder reads) (e : Failure) :
    Advanced once reads s reads (.finished (.error e)) s where
  cwd_eq := rfl
  inOrder := hord
  grows := ReadDesk.Grows.refl _ _
  delivers := trivial
  unmarked _ := rfl
  marked h := by simp [Task.own?] at h

/-- A plan that concludes has its result on the same turn, and leaves the session as it is. -/
theorem advance_of_concludes {P : Resolved × Finder → Prop} {p : Plan (Resolved × Finder)}
    (h : p.Concludes P) (s : Compilation σ) :
    ∃ r s', p.advance s = (.finished (.ok r), s') ∧ P r ∧ s'.session = s.session ∧
      s'.cwd = s.cwd := by
  induction p generalizing s with
  | done r => exact ⟨r, s, rfl, h, rfl, rfl⟩
  | note e next ih => exact ih h (s.noteAll [e])
  | _ => exact h.elim

/-- A file that is found is marked, unless it was marked before. -/
theorem mark_of_genuine {known : Text → Text → Prop} {r : Resolved}
    (hr : Genuine s.cwd known r) :
    (s.mark r.file).1 = !s.session.imported.contains r.file ∧
      (s.mark r.file).2.session.desk = s.session.desk ∧
      (s.mark r.file).2.session.imported
        = if s.session.imported.contains r.file then s.session.imported
          else s.session.imported ++ [r.file] := by
  unfold mark Session.mark
  rw [hr.importKey_file]
  dsimp only
  split <;> simp_all

theorem session_arrive (s : Compilation σ) (p : Text) :
    (s.arrive p).1 = (s.session.desk.arrive (s.key p)).1 ∧
      (s.arrive p).2.2.session.desk = (s.session.desk.arrive (s.key p)).2.2 ∧
      (s.arrive p).2.2.session.imported = s.session.imported ∧ (s.arrive p).2.2.cwd = s.cwd := by
  unfold arrive
  dsimp only
  split <;> exact ⟨rfl, rfl, rfl, rfl⟩

theorem session_register (s : Compilation σ) (token path : Text) :
    (s.register token path).2.session.desk = s.session.desk ∧
      (s.register token path).2.session.imported = s.session.imported ∧
      (s.register token path).2.cwd = s.cwd := by
  unfold register Session.register noteAll
  cases Entries.get? token s.session.bindings <;> exact ⟨rfl, rfl, rfl⟩

/-- The turn of a plan that goes on with a read ends with the ticket of a read of the key. -/
theorem advanced_read {p : Text} {next : ReadOutcome → Plan (Resolved × Finder)}
    (hord : s.session.desk.InOrder reads)
    (h : (Plan.read p next).Delivers s.cwd once (s.session.desk.Holds reads)) :
    Advanced once reads s (s.session.desk.callsAfter reads (s.key p))
      ((Plan.read p next).advance s).1 ((Plan.read p next).advance s).2 := by
  obtain ⟨hticket, hdesk, himported, hcwd⟩ := s.session_arrive p
  have hgrows := s.session.desk.grows_arrive reads (s.key p)
  refine ⟨hcwd, ?_, ?_, ?_, fun _ => himported, ?_⟩
  · show (s.arrive p).2.2.session.desk.InOrder _
    rw [hdesk]
    exact hord.arrive _
  · show s.session.desk.Grows _ (s.arrive p).2.2.session.desk _
    rw [hdesk]
    exact hgrows
  · show Task.Delivers _ _ (s.arrive p).2.2.session.desk _ (.waiting p (s.arrive p).1 next)
    rw [hdesk, hticket]
    exact ⟨hord.getElem?_callsAfter _, h.mono fun _ _ => hgrows.holds⟩
  · intro r hr
    simp [Task.own?, Plan.advance] at hr

/-- A plan that marks a file has found it when its turn ends. -/
theorem advanced_mark {file : Text} {next : Bool → Plan (Resolved × Finder)}
    (hord : s.session.desk.InOrder reads)
    (h : (Plan.mark file next).Delivers s.cwd once (s.session.desk.Holds reads)) :
    Advanced once reads s reads ((Plan.mark file next).advance s).1
      ((Plan.mark file next).advance s).2 := by
  obtain ⟨⟨r, finder⟩, s', hadv, ⟨hfinder, rfl, hflag, hgenuine⟩, hsession, hcwd⟩ :=
    advance_of_concludes (h (s.mark file).1) (s.mark file).2
  obtain ⟨hfirst, hdesk, himported⟩ := s.mark_of_genuine hgenuine
  obtain rfl : finder = .importer := hfinder
  have hturn : (Plan.mark r.file next).advance s = (.finished (.ok (r, .importer)), s') := hadv
  rw [← hsession] at hdesk himported
  rw [hturn]
  refine ⟨hcwd, ?_, ?_, trivial, fun hnone => ?_, ?_⟩
  · rw [hdesk]
    exact hord
  · rw [hdesk]
    exact ReadDesk.Grows.refl _ _
  · simp [Task.own?] at hnone
  · intro r' hr'
    obtain rfl : r = r' := Option.some.inj hr'
    rw [hdesk, himported]
    refine ⟨hgenuine, ?_, rfl⟩
    rw [hflag, hfirst, Bool.not_not]

/-- The turn of a plan that delivers. -/
theorem advanced_advance {p : Plan (Resolved × Finder)} (hord : s.session.desk.InOrder reads)
    (h : p.Delivers s.cwd once (s.session.desk.Holds reads)) :
    ∃ reads', Advanced once reads s reads' (p.advance s).1 (p.advance s).2 := by
  have hsame := ReadDesk.Grows.refl s.session.desk reads
  -- The questions that leave the session alone are followed by the rest of the plan, on the same
  -- turn; a read, a mark and a pause end the turn.
  induction p generalizing s with
  | done r =>
    refine ⟨reads, rfl, hord, hsame, trivial, fun _ => rfl, ?_⟩
    intro r' hr'
    obtain ⟨_, finder⟩ := r
    obtain rfl : finder = .host := h
    simp [Task.own?, Plan.advance] at hr'
  | fail e => exact ⟨reads, advanced_fail hord e⟩
  | isFile p next ih => exact ih _ hord (h _) hsame
  | lookup name context next ih =>
    rw [Plan.advance, lookup]
    rcases s.host.lookup name context s.state with ⟨e | r, state⟩
    · exact ⟨reads, (advanced_fail (s := { s with state }) hord e).of_grows (s := s) rfl rfl hsame⟩
    · obtain ⟨reads', hadv⟩ := ih (s := { s with state }) r hord (h r) hsame
      exact ⟨reads', hadv.of_grows (s := s) rfl rfl hsame⟩
  | read p next ih => exact ⟨_, advanced_read hord h⟩
  | askHost identifier prev next ih =>
    rw [Plan.advance, ask]
    rcases s.host.ask identifier prev s.state with ⟨e | r, state⟩
    · exact ⟨reads, (advanced_fail (s := { s with state }) hord _).of_grows (s := s) rfl rfl hsame⟩
    · obtain ⟨reads', hadv⟩ := ih (s := { s with state }) r hord (h r) hsame
      exact ⟨reads', hadv.of_grows (s := s) rfl rfl hsame⟩
  | mark file next ih => exact ⟨_, advanced_mark hord h⟩
  | register token path next ih =>
    obtain ⟨hdesk, himported, hcwd⟩ := s.session_register token path
    obtain ⟨reads', hadv⟩ := ih (s := (s.register token path).2) (s.register token path).1
      (by rwa [hdesk]) (by rw [hdesk, hcwd]; exact h _) (by rw [hdesk]; exact hsame)
    exact ⟨reads', hadv.of_grows (s := s) hcwd himported (by rw [hdesk]; exact hsame)⟩
  | note e next ih =>
    obtain ⟨reads', hadv⟩ := ih (s := s.noteAll [e]) hord h hsame
    exact ⟨reads', hadv.of_grows (s := s) rfl rfl hsame⟩
  | pause next ih =>
    refine ⟨reads, rfl, hord, hsame, h, fun _ => rfl, ?_⟩
    intro r hr
    simp [Task.own?, Plan.advance] at hr

/-- A read that was started is over after `complete`, with the outcome that `complete` tells. -/
theorem session_complete (hord : s.session.desk.InOrder reads) {n : Nat} (hn : n < reads.length)
    (p : Text) :
    (s.complete p n).2.session.desk.InOrder reads ∧
      s.session.desk.Grows reads (s.complete p n).2.session.desk reads ∧
      (s.complete p n).2.session.desk.outcome? n = some (s.complete p n).1 ∧
      (s.complete p n).2.session.imported = s.session.imported ∧
      (s.complete p n).2.cwd = s.cwd := by
  unfold complete
  cases ho : s.session.desk.outcome? n with
  | some o => exact ⟨hord, ReadDesk.Grows.refl _ _, ho, rfl, rfl⟩
  | none =>
    have hlt : n < s.session.desk.outcomes.length := hord.length_eq ▸ hn
    exact ⟨hord.complete ho _, ReadDesk.grows_complete reads ho _,
      ReadDesk.outcome?_complete_self hlt _, rfl, rfl⟩

/-- The turn of a task that delivers and is not over: if it waited for a read, it learns of the
outcome first. -/
theorem advanced_step (hord : s.session.desk.InOrder reads)
    (h : t.Delivers s.cwd once s.session.desk reads) (hunfinished : ∀ r, t ≠ .finished r) :
    ∃ reads', Advanced once reads s reads' (t.step s).1 (t.step s).2 := by
  cases t with
  | ready plan => exact advanced_advance hord h
  | finished r => exact absurd rfl (hunfinished r)
  | waiting p n next =>
    obtain ⟨hn, hread⟩ := h
    obtain ⟨hord₁, hgrows₁, ho, himported, hcwd⟩ :=
      session_complete hord (List.getElem?_eq_some_iff.mp hn).1 p
    set s₁ := (s.complete p n).2 with hs₁
    set o := (s.complete p n).1 with ho'
    have hgrows : s.session.desk.Grows reads (s₁.resume p n o).session.desk reads :=
      hgrows₁.trans (ReadDesk.grows_resume _ _ _ _ _)
    have hord₂ : (s₁.resume p n o).session.desk.InOrder reads := hord₁.resume ho
    -- The text that was read is one that the desk holds now.
    have hnext : (next o).Delivers s.cwd once ((s₁.resume p n o).session.desk.Holds reads) := by
      cases hcase : o with
      | error e => exact (hread.2 e).mono fun _ _ => (hcase ▸ hgrows).holds
      | ok text =>
        refine (hread.1 text).mono ?_
        rintro k t' (hk | ⟨rfl, rfl⟩)
        · exact (hcase ▸ hgrows).holds hk
        · exact ⟨n, hn, by rw [← hcase]; simpa [resume] using hcase ▸ ho⟩
    obtain ⟨reads', hadv⟩ := advanced_advance (s := s₁.resume p n o) hord₂ (hcwd ▸ hnext)
    exact ⟨reads', hadv.of_grows (s := s) hcwd himported hgrows⟩

end Compilation

end StyleImport
