/-
Which imports are registrations, and what becomes of the others.

A registration is `fs(`, a token and `)`, and nothing else but the end of its line.  It is answered
on the spot.  Any other identifier goes to the resolver behind, as it came, and the answer comes
back as it is.

* `Registration.Spells` — the grammar of registrations;
* `Registration.token?_eq_some_iff` — what is recognized: a registration, or one with a line end;
* `Importer.registers_or_hands_on` — the one is registered and the other is handed on;
* `Importer.line_end_registered` — the line end is no part of the grammar.
-/
import Mathlib.Data.List.Basic
import StyleImport.Import.World
import StyleImport.Proofs.Import.Registering
import StyleImport.Proofs.Import.Routing

namespace StyleImport

/-! ### The grammar -/

namespace Registration

/-- A letter, a dash or an underscore. -/
def IsFirst (c : Char) : Prop :=
  'a' ≤ c ∧ c ≤ 'z' ∨ 'A' ≤ c ∧ c ≤ 'Z' ∨ c = '-' ∨ c = '_'

/-- One of these or a digit. -/
def IsNext (c : Char) : Prop := IsFirst c ∨ '0' ≤ c ∧ c ≤ '9'

/-- The identifiers that register tokens: a token is one character to start with, and at least one
more. -/
inductive Spells : Text → Text → Prop
  | intro {c d : Char} {cs : Text} : IsFirst c → IsNext d → (∀ e ∈ cs, IsNext e) →
    Spells (['f', 's', '('] ++ (c :: d :: cs) ++ [')']) (c :: d :: cs)

/-- The identifiers that are taken for registrations: a line end may follow. -/
def Registers (identifier token : Text) : Prop :=
  Spells identifier token ∨ ∃ line, Spells line token ∧ identifier = line ++ ['\n']

theorem startsToken_iff {c : Char} : startsToken c = true ↔ IsFirst c := by
  have hupper : c.isUpper = true ↔ 'A' ≤ c ∧ c ≤ 'Z' := decide_eq_true_iff
  have hlower : c.isLower = true ↔ 'a' ≤ c ∧ c ≤ 'z' :=
    Bool.and_eq_true_iff.trans (and_congr decide_eq_true_iff decide_eq_true_iff)
  have halpha : c.isAlpha = true ↔ c.isLower = true ∨ c.isUpper = true :=
    Bool.or_eq_true_iff.trans or_comm
  rw [startsToken, Bool.or_eq_true, Bool.or_eq_true, decide_eq_true_eq, decide_eq_true_eq, halpha,
    hlower, hupper, or_assoc, or_assoc, IsFirst]

theorem continuesToken_iff {c : Char} : continuesToken c = true ↔ IsNext c := by
  have hdigit : c.isDigit = true ↔ '0' ≤ c ∧ c ≤ '9' :=
    Bool.and_eq_true_iff.trans (and_congr decide_eq_true_iff decide_eq_true_iff)
  rw [continuesToken, Bool.or_eq_true, startsToken_iff, hdigit, IsNext]

theorem isToken_iff {token : Text} :
    isToken token = true ↔ ∃ c d cs, token = c :: d :: cs ∧ IsFirst c ∧ IsNext d ∧
      ∀ e ∈ cs, IsNext e := by
  rcases token with _ | ⟨c, _ | ⟨d, cs⟩⟩
  · simp [isToken]
  · simp [isToken]
  · simp [isToken, startsToken_iff, continuesToken_iff, and_assoc]

theorem spells_iff {line token : Text} :
    Spells line token ↔
      line = ['f', 's', '('] ++ token ++ [')'] ∧ isToken token = true := by
  rw [isToken_iff]
  constructor
  · rintro ⟨hfirst, hnext, hmore⟩
    exact ⟨rfl, _, _, _, rfl, hfirst, hnext, hmore⟩
  · rintro ⟨rfl, c, d, cs, rfl, hfirst, hnext, hmore⟩
    exact .intro hfirst hnext hmore

/-- Beyond the line end, what is recognized is the grammar. -/
theorem token?_eq_some_iff_dropLineEnd {identifier token : Text} :
    token? identifier = some token ↔ Spells (dropLineEnd identifier) token := by
  rw [spells_iff]
  unfold token?
  constructor
  · intro h
    split at h
    · rename_i cs hline
      split at h
      · rename_i htoken
        rw [Bool.and_eq_true, decide_eq_true_eq] at htoken
        obtain rfl := Option.some.inj h
        have hcs : cs.dropLast ++ [')'] = cs := List.dropLast_append_getLast? _ htoken.1
        rw [hline, List.append_assoc, hcs]
        exact ⟨rfl, htoken.2⟩
      · cases h
    · cases h
  · rintro ⟨hline, htoken⟩
    rw [hline]
    simp [htoken]

theorem Spells.getLast? {line token : Text} (h : Spells line token) :
    line.getLast? = some ')' := by
  rw [(spells_iff.mp h).1, List.getLast?_concat]

/-- What is recognized is a registration, or one with a line end. -/
theorem token?_eq_some_iff {identifier token : Text} :
    token? identifier = some token ↔ Registers identifier token := by
  rw [token?_eq_some_iff_dropLineEnd, Registers, dropLineEnd]
  by_cases hend : identifier.getLast? = some '\n'
  · -- The line end is dropped, and no registration ends with one.
    rw [if_pos hend]
    have hsplit : identifier = identifier.dropLast ++ ['\n'] :=
      (List.dropLast_append_getLast? _ hend).symm
    constructor
    · exact fun h => .inr ⟨_, h, hsplit⟩
    · rintro (h | ⟨line, h, heq⟩)
      · exact absurd (hend.symm.trans h.getLast?) (by decide)
      · rwa [heq, List.dropLast_concat]
  · rw [if_neg hend]
    constructor
    · exact .inl
    · rintro (h | ⟨line, h, rfl⟩)
      · exact h
      · exact absurd List.getLast?_concat hend

end Registration

namespace Importer

variable {σ : Type} (i : Importer) (s : Compilation σ)

/-! ### Registering and handing on -/

/-- The path that a registration offers for its token. -/
def offered (token prev : Text) : Text :=
  if token = Registration.rootToken then i.settings.root
  else i.requestDirectory prev (s.host.isFile s.state prev)

/-- What a registration comes to: the resolver behind is not asked, the import tells the path that
the token was bound to before, or else the one that is offered, and then the token is bound to it
now. -/
structure Registered (token prev : Text) (log : List Exchange) (result : Except Failure Resolved)
    (after : Session) : Prop where
  asks_nobody : ∀ x ∈ log, ¬ x.IsAsk ∧ ¬ x.IsRead
  result_eq : let bound := (s.session.bound? token).getD (i.offered s token prev)
    ∃ first, result
      = .ok (i.marked (Registration.file token bound) (Registration.source token bound) first)
  bindings_eq : after.bindings
    = if (s.session.bound? token).isSome then s.session.bindings
      else s.session.bindings ++ [(token, i.offered s token prev)]

/-- What happens when a path is bound to a token. -/
theorem registered_bindToken (token path : Text) :
    let plan := i.bindToken token path
    (∀ x ∈ plan.exchanges s, ¬ x.IsAsk ∧ ¬ x.IsRead) ∧
      (∃ first, (plan.run s).1
        = .ok (i.marked (Registration.file token (s.session.register token path).1)
            (Registration.source token (s.session.register token path).1) first)) ∧
      (plan.run s).2.session.bindings = (s.session.register token path).2.1.bindings := by
  intro plan
  let told := (s.session.register token path).1
  let s' := (s.register token path).2.noteAll
    [.detail .registrations ("[import:fs] " ++ token ++ " -> " ++ told)]
  have hlog : plan.exchanges s
      = .register token path told :: (i.importOnce (registration token told)).exchanges s' := rfl
  obtain ⟨first, hmark, hresult⟩ :=
    i.run_importOnce (Registration.file token told) (Registration.source token told) s'
  have hbinds : (plan.run s).2.session.bindings = s'.session.bindings :=
    (i.bindsNothing_importOnce (registration token told)).bindings_run s'
  refine ⟨?_, ⟨first, hresult⟩, hbinds⟩
  have honce : (i.importOnce (registration token told)).exchanges s'
      = [.mark (Registration.file token told) first] := hmark
  rw [hlog, honce]
  intro x hx
  simp only [List.mem_cons, List.not_mem_nil, or_false] at hx
  rcases hx with rfl | rfl <;> exact ⟨id, id⟩

/-- A registration that is made on the spot. -/
theorem registered_resolveToken (token prev : Text) :
    i.Registered s token prev ((i.resolveToken token prev).exchanges s)
      ((i.resolveToken token prev).run s).1 ((i.resolveToken token prev).run s).2.session := by
  obtain ⟨hlog, hresult, hbindings⟩ := i.registered_bindToken s token (i.offered s token prev)
  rw [Session.fst_register] at hresult
  rw [Session.bindings_register] at hbindings
  have hrun : (i.resolveToken token prev).run s
      = (i.bindToken token (i.offered s token prev)).run s := by
    unfold resolveToken offered
    split <;> rfl
  -- Before the token is bound there is one question at most: whether the requesting file exists.
  have hexchanges : ∀ x ∈ (i.resolveToken token prev).exchanges s,
      x = .isFile prev (s.host.isFile s.state prev) ∨
        x ∈ (i.bindToken token (i.offered s token prev)).exchanges s := by
    unfold resolveToken offered
    split
    · exact fun x hx => .inr hx
    · exact fun x hx => List.mem_cons.mp hx
  rw [hrun]
  refine ⟨fun x hx => ?_, hresult, hbindings⟩
  rcases hexchanges x hx with rfl | hx
  · exact ⟨id, id⟩
  · exact hlog x hx

/-- A registration has a result, so that nothing is left of its plan but to tell it. -/
theorem resolveRegistration_of_token? {identifier token : Text}
    (h : Registration.token? identifier = some token) (prev : Text) :
    (i.resolveRegistration identifier prev).exchanges s = (i.resolveToken token prev).exchanges s ∧
      (i.resolveRegistration identifier prev).run s
        = (((i.resolveToken token prev).run s).1.map some,
          ((i.resolveToken token prev).run s).2) := by
  unfold resolveRegistration
  rw [h]
  dsimp only
  rw [Plan.exchanges_bind, Plan.run_bind]
  rcases (i.resolveToken token prev).run s with ⟨e | r, s'⟩
  · exact ⟨List.append_nil _, rfl⟩
  · exact ⟨List.append_nil _, rfl⟩

/-- What handing an import on comes to: the resolver behind is asked once, for the import as it
came, its answer or its failure is the result, and the session stays as it is. -/
structure HandedOn (identifier prev : Text) (log : List Exchange)
    (result : Except Failure (Option Resolved)) (after : Session) : Prop where
  asked_once : log = [.askHost identifier prev (s.ask identifier prev).1]
  result_eq : result = (s.ask identifier prev).1.mapError .host
  session_eq : after = s.session

/-- What is no registration is handed on. -/
theorem handedOn_resolveRegistration {identifier : Text}
    (h : Registration.token? identifier = none) (prev : Text) :
    HandedOn s identifier prev ((i.resolveRegistration identifier prev).exchanges s)
      ((i.resolveRegistration identifier prev).run s).1
      ((i.resolveRegistration identifier prev).run s).2.session := by
  have hsession : (s.ask identifier prev).2.session = s.session := rfl
  unfold resolveRegistration orHost
  rw [h]
  simp only [Plan.exchanges, Plan.run]
  rcases hask : s.ask identifier prev with ⟨message | _ | r, s'⟩
  all_goals
    rw [hask] at hsession
    refine ⟨?_, ?_, hsession⟩ <;> rw [hask] <;> rfl

/-- The importer of modules, where that is the resolver behind, gets what is no registration. -/
theorem resolve_of_token?_eq_none {identifier : Text}
    (h : Registration.token? identifier = none) (prev : Text) :
    let behind := i.resolveModule identifier prev
    (i.resolve identifier prev).exchanges s = behind.exchanges s ∧
      ((i.resolve identifier prev).run s).1 = (behind.run s).1 ∧
      ((i.resolve identifier prev).run s).2.session = (behind.run s).2.session := by
  intro behind
  unfold resolve
  rw [h]
  dsimp only
  rw [Plan.exchanges_bind, Plan.run_bind]
  rcases behind.run s with ⟨e | r, s'⟩
  · exact ⟨List.append_nil _, rfl, rfl⟩
  · exact ⟨List.append_nil _, rfl, rfl⟩

/-- **Registrations.**  An identifier that the grammar spells, or one with a line end behind it, is
registered for its token, whether it comes to the importer of registrations alone or to the one with
modules behind it.  Any other identifier is handed on to whatever is behind, which alone gives the
answer, and no token is bound on the way. -/
theorem registers_or_hands_on (identifier prev : Text) :
    let alone := i.resolveRegistration identifier prev
    let behind := i.resolveModule identifier prev
    let both := i.resolve identifier prev
    (∃ token, Registration.Registers identifier token ∧
      (∃ result, (alone.run s).1 = result.map some ∧
        i.Registered s token prev (alone.exchanges s) result (alone.run s).2.session) ∧
      i.Registered s token prev (both.exchanges s) (both.run s).1 (both.run s).2.session) ∨
    (∀ token, ¬ Registration.Registers identifier token) ∧
      HandedOn s identifier prev (alone.exchanges s) (alone.run s).1 (alone.run s).2.session ∧
      (∀ (w : World) (session : Session),
        (alone.run ({ w with resolver := none }.compilation session)).1 = .ok none) ∧
      both.exchanges s = behind.exchanges s ∧ (both.run s).1 = (behind.run s).1 ∧
        (both.run s).2.session = (behind.run s).2.session ∧
        (both.run s).2.session.bindings = s.session.bindings := by
  intro alone behind both
  cases htoken : Registration.token? identifier with
  | some token =>
    have hregistered := i.registered_resolveToken s token prev
    have hboth : both = i.resolveToken token prev := by
      unfold both resolve
      rw [htoken]
    obtain ⟨hlog, hrun⟩ := i.resolveRegistration_of_token? s htoken prev
    refine .inl ⟨token, Registration.token?_eq_some_iff.mp htoken,
      ⟨_, congrArg Prod.fst hrun, ?_⟩, ?_⟩
    · rw [hlog, hrun]
      exact hregistered
    · rw [hboth]
      exact hregistered
  | none =>
    refine .inr ⟨fun token ht => ?_, i.handedOn_resolveRegistration s htoken prev,
      fun w session => ?_, ?_⟩
    · rw [Registration.token?_eq_some_iff.mpr ht] at htoken
      cases htoken
    · exact (i.handedOn_resolveRegistration _ htoken prev).result_eq
    · obtain ⟨hlog, hresult, hsession⟩ := i.resolve_of_token?_eq_none s htoken prev
      exact ⟨hlog, hresult, hsession, (i.bindsNothing_resolve htoken prev).bindings_run s⟩

/-- A line end behind a registration is no part of it, but the token is bound all the same, and the
resolver behind is not asked. -/
theorem line_end_registered :
    let i : Importer := ⟨['/'], { root := ['/'] }, false⟩
    let line : Text := "fs(images)\n"
    let w : World := { disk := {}, registry := .declared [], resolver := some [] }
    let after := ((i.resolveRegistration line []).run w.compilation).2
    (∀ token, ¬ Registration.Spells line token) ∧
      after.session.bindings = [(("images" : Text), ['/'])] ∧ after.state.asked = [] := by
  intro i line w after
  refine ⟨fun token h => ?_, by decide +kernel, by decide +kernel⟩
  exact absurd h.getLast? (by decide +kernel)

end Importer

end StyleImport
