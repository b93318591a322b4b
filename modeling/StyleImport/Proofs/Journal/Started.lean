/-
What starting a journal does to its handlers.

The level is set and the old sink is taken away before the directory of the new sink is made.  So a
call that succeeds leaves exactly one sink, behind all other handlers, but one that fails on the disk
leaves none.  A call with a word that stands for no level changes nothing.

* `Journal.Starts` — the three ends of a call, and `Journal.starts`, that there are no others;
* `Journal.others_after` — no run of calls touches the other handlers;
* `Journal.single_sink` — what the last call of a run leaves;
* `Journal.start_drops_sink` — a call that fails and takes the sink away.
-/
import Mathlib.Tactic.Common
import StyleImport.Journal.Sink

namespace StyleImport

namespace Journal

/-- The handlers that are no sinks. -/
def others (j : Journal) : List Handler := j.handlers.filter (!·.isSink)

theorem path?_eq_none_iff {h : Handler} : h.path? = none ↔ h.isSink = false := by
  cases h <;> simp [Handler.path?, Handler.isSink]

theorem sinks_append_sink (hs : List Handler) (level : Level) (path : Text) :
    sinks { level, handlers := hs.filter (!·.isSink) ++ [.sink path] } = [path] := by
  have hnone : (hs.filter (!·.isSink)).filterMap Handler.path? = [] := by
    refine List.filterMap_eq_nil_iff.mpr fun h hh => path?_eq_none_iff.mpr ?_
    simpa using (List.mem_filter.mp hh).2
  rw [sinks, List.filterMap_append, hnone]
  rfl

theorem sinks_eq_nil_iff {j : Journal} : j.sinks = [] ↔ j.others = j.handlers := by
  rw [sinks, List.filterMap_eq_nil_iff, others, List.filter_eq_self]
  refine forall₂_congr fun h _ => ?_
  rw [path?_eq_none_iff, Bool.not_eq_true']

theorem others_others (hs : List Handler) (level : Level) :
    others { level, handlers := hs.filter (!·.isSink) } = hs.filter (!·.isSink) := by
  rw [others, List.filter_filter]
  simp

theorem others_append_sink (hs : List Handler) (level : Level) (path : Text) :
    others { level, handlers := hs.filter (!·.isSink) ++ [.sink path] }
      = hs.filter (!·.isSink) := by
  rw [others, List.filter_append, List.filter_filter]
  simp [Handler.isSink]

/-! ### One call -/

/-- A call that starts the journal: the path and the word for the level that it is given, and the
disk that it finds. -/
structure Call where
  /-- The path of the sink. -/
  path : Option Text
  /-- The word for the level. -/
  word : Option Text
  /-- The disk. -/
  disk : Disk

/-- The path of the sink that a call is to leave. -/
def Call.target (c : Call) : Text := Path.collapse (given defaultPath c.path)

/-- The level that a call is to leave. -/
def Call.level (c : Call) : Except Failure Level := Level.ofWord (given defaultWord c.word)

/-- What comes of a call, and the journal after it. -/
def Call.run (c : Call) (j : Journal) : Except Failure Unit × Journal :=
  ((j.start c.path c.word c.disk).1, (j.start c.path c.word c.disk).2.1)

/-- How a call on a journal can end. -/
inductive Starts (j : Journal) (c : Call) : Except Failure Unit × Journal → Prop
  /-- The word stands for no level. -/
  | refused {e : Failure} : c.level = .error e → Starts j c (.error e, j)
  /-- The directory of the sink cannot be made. -/
  | stranded {level : Level} (e : ReadFailure) : c.level = .ok level →
    Starts j c (.error (.read e), { level, handlers := j.others })
  /-- The sink is there. -/
  | done {level : Level} : c.level = .ok level →
    Starts j c (.ok (), { level, handlers := j.others ++ [.sink c.target] })

theorem run_of_refused {j : Journal} {c : Call} {e : Failure} (hlevel : c.level = .error e) :
    c.run j = (.error e, j) := by
  unfold Call.run start
  rw [show Level.ofWord (given defaultWord c.word) = .error e from hlevel]

theorem run_of_unmade {j : Journal} {c : Call} {level : Level} {e : ReadFailure} {disk : Disk}
    (hlevel : c.level = .ok level)
    (hmake : c.disk.tryDirectories (Path.parent c.target) = (.error e, disk)) :
    c.run j = (.error (.read e), { level, handlers := j.others }) := by
  unfold Call.run start
  rw [show Level.ofWord (given defaultWord c.word) = .ok level from hlevel]
  dsimp only
  rw [show c.disk.tryDirectories (Path.parent (Path.collapse (given defaultPath c.path)))
    = (.error e, disk) from hmake]
  rfl

theorem run_of_made {j : Journal} {c : Call} {level : Level} {disk : Disk}
    (hlevel : c.level = .ok level)
    (hmake : c.disk.tryDirectories (Path.parent c.target) = (.ok (), disk)) :
    c.run j = (.ok (), { level, handlers := j.others ++ [.sink c.target] }) := by
  unfold Call.run start
  rw [show Level.ofWord (given defaultWord c.word) = .ok level from hlevel]
  dsimp only
  rw [show c.disk.tryDirectories (Path.parent (Path.collapse (given defaultPath c.path)))
    = (.ok (), disk) from hmake]
  rfl

theorem starts (j : Journal) (c : Call) : Starts j c (c.run j) := by
  cases hlevel : c.level with
  | error e =>
    rw [run_of_refused hlevel]
    exact .refused hlevel
  | ok level =>
    rcases hmade : c.disk.tryDirectories (Path.parent c.target) with ⟨outcome, disk⟩
    cases outcome with
    | error e =>
      rw [run_of_unmade hlevel hmade]
      exact .stranded e hlevel
    | ok =>
      rw [run_of_made hlevel hmade]
      exact .done hlevel

/-- A call leaves the other handlers where they are. -/
theorem Starts.others_eq {j : Journal} {c : Call} {end_ : Except Failure Unit × Journal}
    (h : Starts j c end_) : end_.2.others = j.others := by
  cases h with
  | refused => rfl
  | stranded => exact others_others _ _
  | done => exact others_append_sink _ _ _

/-! ### Calls one after the other -/

/-- The journal after calls. -/
def after (j : Journal) (calls : List Call) : Journal := calls.foldl (fun j c => (c.run j).2) j

/-- No run of calls, failed ones among them, touches the other handlers. -/
theorem others_after (j : Journal) (calls : List Call) : (j.after calls).others = j.others := by
  induction calls generalizing j with
  | nil => rfl
  | cons c calls ih => exact (ih (c.run j).2).trans (starts j c).others_eq

/-- A call that is stranded changes the journal unless there is no sink to take away and the level
is the old one. -/
theorem eq_self_iff {j : Journal} {level : Level} :
    { level, handlers := j.others } = j ↔ j.sinks = [] ∧ level = j.level := by
  rw [sinks_eq_nil_iff, and_comm]
  exact Journal.mk.injEq .. ▸ Iff.rfl

/-- **One sink, unless the disk fails.**  After any calls on any journal, a call that succeeds leaves
one sink, the one for its path, behind all other handlers in their old order, and its own level.  A
call that fails leaves the journal as it was if the word stands for no level, or if there was no
sink and the level is the old one; otherwise it leaves its own level and no sink. -/
theorem single_sink (j : Journal) (calls : List Call) (c : Call) :
    ((c.run (j.after calls)).1 = .ok () →
      (c.run (j.after calls)).2.handlers = j.others ++ [.sink c.target] ∧
      (c.run (j.after calls)).2.sinks = [c.target] ∧
      c.level = .ok (c.run (j.after calls)).2.level) ∧
    (∀ e, (c.run (j.after calls)).1 = .error e →
      (c.run (j.after calls)).2.others = j.others ∧
      ((c.run (j.after calls)).2 = j.after calls ↔
        c.level = .error e ∨ ((j.after calls).sinks = [] ∧ c.level = .ok (j.after calls).level)) ∧
      ((c.run (j.after calls)).2 ≠ j.after calls →
        (c.run (j.after calls)).2.sinks = [] ∧
        c.level = .ok (c.run (j.after calls)).2.level)) := by
  have hothers : (j.after calls).others = j.others := others_after j calls
  -- All that counts of the calls before is that the other handlers are still there.
  generalize j.after calls = k at hothers ⊢
  have hends := starts k c
  refine ⟨fun hok => ?_, fun e herror => ⟨hends.others_eq.trans hothers, ?_, fun hchanged => ?_⟩⟩
  · generalize c.run k = end_ at hends hok ⊢
    cases hends with
    | refused | stranded => cases hok
    | done hlevel =>
      rw [← hothers]
      exact ⟨rfl, sinks_append_sink _ _ _, hlevel⟩
  · generalize c.run k = end_ at hends herror ⊢
    cases hends with
    | refused hlevel =>
      obtain rfl := Except.error.inj herror
      exact iff_of_true rfl (.inl hlevel)
    | stranded _ hlevel =>
      rw [eq_self_iff, hlevel, Except.ok.injEq]
      simp
    | done => cases herror
  · generalize c.run k = end_ at hends herror hchanged ⊢
    cases hends with
    | refused => exact absurd rfl hchanged
    | stranded _ hlevel => exact ⟨sinks_eq_nil_iff.mpr (others_others _ _), hlevel⟩
    | done => cases herror

/-- Two sinks one after the other, with another handler in front. -/
theorem single_sink_of_two_calls :
    let j : Journal := { handlers := [.other ['c']] }
    let first : Call := ⟨some ['a'], some ['d', 'e', 'b', 'u', 'g'], {}⟩
    let second : Call := ⟨some ['b'], none, {}⟩
    j.after [first] = { level := Level.debug, handlers := [.other ['c'], .sink ['a']] } ∧
      (second.run (j.after [first])).1 = .ok () ∧
      (second.run (j.after [first])).2.handlers = [.other ['c'], .sink ['b']] ∧
      (second.run (j.after [first])).2.sinks = [['b']] ∧
      (second.run (j.after [first])).2.level = Level.info := by
  intro j first second
  have hmade : ({} : Disk).tryDirectories Path.here = (.ok (), {}) := by cbv
  have hfirst : first.run j
      = (.ok (), { level := Level.debug, handlers := j.others ++ [.sink ['a']] }) :=
    run_of_made (by decide +kernel) hmade
  have hlevel : second.level = .ok Level.info := by decide +kernel
  have hsecond := run_of_made (j := j.after [first]) hlevel hmade
  obtain ⟨hhandlers, hsinks, -⟩ := (single_sink j [first] second).1 (congrArg Prod.fst hsecond)
  exact ⟨congrArg Prod.snd hfirst, congrArg Prod.fst hsecond, hhandlers, hsinks,
    congrArg (·.2.level) hsecond⟩

/-- A call that fails because a file is in the way of its sink's directory: the level is the new one,
and the sink that was there is gone. -/
theorem start_drops_sink :
    let disk : Disk := { top := [(['f'], .file [] 0)] }
    let j : Journal := { level := Level.info, handlers := [.sink ['a']] }
    let c : Call := ⟨some ['f', '/', 'b'], some ['d', 'e', 'b', 'u', 'g'], disk⟩
    (∃ e, (c.run j).1 = .error e) ∧ (c.run j).2 = { level := Level.debug } ∧ (c.run j).2 ≠ j := by
  intro disk j c
  have hmake : c.disk.tryDirectories (Path.parent c.target)
      = (.error (.system (.alreadyExists ['f'])), disk) := by
    cbv
  have hlevel : c.level = .ok Level.debug := by decide +kernel
  rw [run_of_unmade hlevel hmake]
  exact ⟨⟨_, rfl⟩, rfl, by decide⟩

end Journal

end StyleImport
