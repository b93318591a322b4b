/-
What a registry of installed modules remembers.

A record is kept by the path of the metadata that it was read from, and the next lookup that comes
to the same metadata gets it as it is.  On a disk that stays as it is this makes no difference, but
for one thing: where the metadata gives no name, the module is called as it was asked for, and a
record that is kept is called as it was asked for the first time.

* `Registry.Nameless` — metadata that makes a record and gives no name;
* `Registry.Remembers` — what the records kept so far have to do with the lookups so far;
* `Registry.answers_of_fresh` — the answers of one registry and those of fresh ones;
* `Registry.name_of_first_lookup` — two spellings of one module.
-/
import Mathlib.Data.List.Induction
import Mathlib.Tactic.Common
import StyleImport.Proofs.Module.Failures

namespace StyleImport

/-! ### The name in a record -/

namespace ModuleRecord

variable {metadata : Data}

/-- Where metadata gives a name, it does not matter what was asked for. -/
theorem ofMetadata_of_givenName {v : Data} (h : givenName metadata = some v)
    (asked asked' file : Text) :
    ofMetadata asked file metadata = ofMetadata asked' file metadata := by
  unfold givenName at h
  unfold ofMetadata
  cases metadata with
  | map es => simp only [h, nameIn]
  | scalar s | list items => rfl

/-- Where metadata gives no name, the record has the name that was asked for. -/
theorem ofMetadata_of_no_givenName (h : givenName metadata = none) (asked asked' file : Text) :
    ofMetadata asked' file metadata
      = (ofMetadata asked file metadata).map fun r => { r with name := asked' } := by
  unfold givenName at h
  unfold ofMetadata
  cases metadata with
  | scalar s | list items => rfl
  | map es =>
    simp only [h, nameIn]
    -- What may fail is the same on both sides and comes before the record.
    rcases pathIn _ (firstTrue [_, _]) with e | stylesheetDir
    · rfl
    · rcases pathIn _ (firstTrue [_, _]) with e | mainPath <;> rfl

/-- Metadata that gives a name, and metadata that makes no record, comes to the same for everyone
who asks. -/
theorem ofMetadata_congr (h : givenName metadata = none → ∃ e, Malformed metadata e)
    (asked asked' file : Text) :
    ofMetadata asked file metadata = ofMetadata asked' file metadata := by
  cases hname : givenName metadata with
  | some v => exact ofMetadata_of_givenName hname asked asked' file
  | none =>
    obtain ⟨e, hmalformed⟩ := h hname
    rw [ofMetadata_of_no_givenName hname asked asked' file]
    cases hrecord : ofMetadata asked file metadata with
    | error e' => rfl
    | ok r => exact absurd hrecord (hmalformed.ofMetadata_ne_ok asked file r)

end ModuleRecord

namespace Registry

variable {d : Disk} {stopAt : Option Text} {known : List (Text × ModuleRecord)}

/-- A file of metadata that makes a record and gives no name. -/
def Nameless (d : Disk) (file : Text) : Prop :=
  ∃ t metadata, d.readText file = .ok t ∧ Json.read t = .ok metadata ∧
    ModuleRecord.givenName metadata = none ∧ ∀ e, ¬ ModuleRecord.Malformed metadata e

/-- Nameless metadata makes the same record for everyone who asks, but for the name. -/
theorem readMetadata_of_nameless {file : Text} (h : Nameless d file) :
    ∃ r : ModuleRecord, ∀ name, (readMetadata d name file).1 = .ok (some { r with name }) := by
  obtain ⟨t, metadata, hread, hjson, hname, hsound⟩ := h
  cases hrecord : ModuleRecord.ofMetadata [] file metadata with
  | error e => exact absurd (ModuleRecord.malformed_of_ofMetadata hrecord) (hsound e)
  | ok r =>
    refine ⟨r, fun name => ?_⟩
    simp only [readMetadata, hread, hjson,
      ModuleRecord.ofMetadata_of_no_givenName hname [] name file, hrecord]
    rfl

/-- Any other file comes to the same for everyone who asks. -/
theorem readMetadata_of_not_nameless {file : Text} (h : ¬ Nameless d file) (name name' : Text) :
    (readMetadata d name file).1 = (readMetadata d name' file).1 := by
  have hrecord : ∀ t metadata, d.readText file = .ok t → Json.read t = .ok metadata →
      ModuleRecord.ofMetadata name file metadata = ModuleRecord.ofMetadata name' file metadata := by
    intro t metadata hread hjson
    refine ModuleRecord.ofMetadata_congr (fun hname => ?_) name name' file
    by_contra hsound
    exact h ⟨t, metadata, hread, hjson, hname, not_exists.mp hsound⟩
  unfold readMetadata
  rcases hread : d.readText file with (e | f | _) | t
  · rfl
  · rfl
  · rfl
  · rcases hjson : Json.read t with ⟨problem, offset⟩ | metadata
    · cases problem <;> simp only [hjson]
    · simp only [hjson, hrecord t metadata hread hjson]

/-! ### Many lookups -/

/-- What a registry is asked for: a module by its name, seen from a place. -/
structure Question where
  /-- The name of the module. -/
  name : Text
  /-- The place. -/
  context : Text

/-- The metadata that a question comes to. -/
def Question.ComesTo (d : Disk) (stopAt : Option Text) (q : Question) (file : Text) : Prop :=
  metadataFrom d stopAt q.name q.context = .ok (some file)

/-- The answer of a registry to a question. -/
def answer (d : Disk) (registry : Registry) (q : Question) :
    Except Failure (Option ModuleRecord) :=
  (registry.lookup d q.name q.context).1

/-- The registry after questions, one after the other. -/
def after (d : Disk) (registry : Registry) : List Question → Registry
  | [] => registry
  | q :: qs => after d (registry.lookup d q.name q.context).2.1 qs

/-- The answers to questions that one registry is asked one after the other. -/
def answers (d : Disk) (registry : Registry) :
    List Question → List (Except Failure (Option ModuleRecord))
  | [] => []
  | q :: qs => answer d registry q :: answers d (registry.lookup d q.name q.context).2.1 qs

/-- The answer of a registry that was not asked anything before. -/
def fresh (d : Disk) (stopAt : Option Text) (q : Question) : Except Failure (Option ModuleRecord) :=
  answer d (.installed stopAt []) q

theorem after_concat (registry : Registry) (qs : List Question) (q : Question) :
    after d registry (qs ++ [q]) = ((after d registry qs).lookup d q.name q.context).2.1 := by
  induction qs generalizing registry with
  | nil => rfl
  | cons p ps ih => exact ih _

theorem answers_concat (registry : Registry) (qs : List Question) (q : Question) :
    answers d registry (qs ++ [q])
      = answers d registry qs ++ [answer d (after d registry qs) q] := by
  induction qs generalizing registry with
  | nil => rfl
  | cons p ps ih => exact congrArg _ (ih _)

/-! ### What is remembered -/

/-- A registry that was asked `asked`: each record that is kept was read for one of the questions,
and nameless metadata that a question came to has its record kept. -/
structure Remembers (d : Disk) (stopAt : Option Text) (asked : List Question)
    (known : List (Text × ModuleRecord)) : Prop where
  of_known : ∀ {file : Text} {r : ModuleRecord}, Entries.get? file known = some r →
    ∃ q ∈ asked, q.ComesTo d stopAt file ∧ (readMetadata d q.name file).1 = .ok (some r)
  known_of : ∀ {q : Question} {file : Text}, q ∈ asked → q.ComesTo d stopAt file →
    Nameless d file → ∃ r, Entries.get? file known = some r

/-- A lookup keeps the record of the metadata that it comes to, the one that is known or else the
one that it reads. -/
theorem get?_lookupInstalled {q : Question} {file : Text} (h : q.ComesTo d stopAt file) :
    Entries.get? file (lookupInstalled d stopAt known q.name q.context).2.1
      = (Entries.get? file known).or (readMetadata d q.name file).1.toOption.join := by
  have hfound : searchPath d q.context >>= findInstalled d stopAt q.name = .ok (some file) := h
  unfold lookupInstalled
  rw [hfound]
  dsimp only
  cases hknown : Entries.get? file known with
  | some r => exact hknown
  | none =>
    rcases readMetadata d q.name file with ⟨_ | _ | r, events⟩
    · exact hknown
    · exact hknown
    · exact Entries.get?_put_self file r known

/-- A lookup leaves the records of other metadata as they are. -/
theorem get?_lookupInstalled_of_not {q : Question} {file : Text} (h : ¬ q.ComesTo d stopAt file) :
    Entries.get? file (lookupInstalled d stopAt known q.name q.context).2.1
      = Entries.get? file known := by
  unfold lookupInstalled
  rcases hsearch : searchPath d q.context >>= findInstalled d stopAt q.name with e | _ | found
  · rfl
  · rfl
  · dsimp only
    have hne : file ≠ found := by
      rintro rfl
      exact h hsearch
    cases Entries.get? found known with
    | some r => rfl
    | none =>
      rcases readMetadata d q.name found with ⟨_ | _ | r, events⟩
      · rfl
      · rfl
      · exact Entries.get?_put_of_ne hne r known

namespace Remembers

variable {asked : List Question}

theorem nil : Remembers d stopAt [] [] where
  of_known h := nomatch h
  known_of h := nomatch h

/-- **One more lookup** is remembered too. -/
theorem concat (h : Remembers d stopAt asked known) (q : Question) :
    Remembers d stopAt (asked ++ [q]) (lookupInstalled d stopAt known q.name q.context).2.1 where
  of_known := by
    intro file r hr
    have hbefore : Entries.get? file known = some r → ∃ p ∈ asked ++ [q],
        p.ComesTo d stopAt file ∧ (readMetadata d p.name file).1 = .ok (some r) := by
      intro hknown
      obtain ⟨p, hp, hread⟩ := h.of_known hknown
      exact ⟨p, List.mem_append_left _ hp, hread⟩
    by_cases hq : q.ComesTo d stopAt file
    · rw [get?_lookupInstalled hq, Option.or_eq_some_iff] at hr
      rcases hr with hknown | ⟨-, hread⟩
      · exact hbefore hknown
      · refine ⟨q, List.mem_concat_self, hq, ?_⟩
        rcases hanswer : (readMetadata d q.name file).1 with e | _ | r'
        · rw [hanswer] at hread
          cases hread
        · rw [hanswer] at hread
          cases hread
        · rw [hanswer] at hread
          exact congrArg Except.ok hread
    · rw [get?_lookupInstalled_of_not hq] at hr
      exact hbefore hr
  known_of := by
    intro p file hp hcomes hnameless
    rcases List.mem_append.mp hp with hp | hp
    · obtain ⟨r, hr⟩ := h.known_of hp hcomes hnameless
      refine ⟨r, ?_⟩
      by_cases hq : q.ComesTo d stopAt file
      · rw [get?_lookupInstalled hq, hr, Option.some_or]
      · rw [get?_lookupInstalled_of_not hq, hr]
    · -- The new question finds a record, or else reads one now.
      obtain rfl := List.mem_singleton.mp hp
      obtain ⟨r, hr⟩ := readMetadata_of_nameless hnameless
      rw [get?_lookupInstalled hcomes, hr p.name]
      cases hknown : Entries.get? file known with
      | some r' => exact ⟨r', rfl⟩
      | none => exact ⟨_, rfl⟩

end Remembers

/-- **Any number of lookups**, one after the other, are remembered. -/
theorem after_installed (d : Disk) (stopAt : Option Text) (qs : List Question) :
    ∃ known, after d (.installed stopAt []) qs = .installed stopAt known ∧
      Remembers d stopAt qs known := by
  -- The last question is the one that is new to what is remembered, so the induction starts there.
  induction qs using List.reverseRecOn with
  | nil => exact ⟨[], rfl, .nil⟩
  | append_singleton qs q ih =>
    obtain ⟨known, hafter, hknown⟩ := ih
    refine ⟨_, ?_, hknown.concat q⟩
    rw [after_concat, hafter, lookup]

/-! ### The answers -/

theorem answer_installed (q : Question) :
    answer d (.installed stopAt known) q
      = match metadataFrom d stopAt q.name q.context with
        | .error e => .error e
        | .ok none => .ok none
        | .ok (some file) =>
          match Entries.get? file known with
          | some r => .ok (some r)
          | none => (readMetadata d q.name file).1 := by
  rw [answer, lookup]
  exact fst_lookupInstalled known

/-- An answer without the name in it. -/
def withoutName (a : Except Failure (Option ModuleRecord)) : Except Failure (Option ModuleRecord) :=
  a.map (Option.map fun r => { r with name := [] })

/-- Questions that come to the same nameless metadata only if they have the same name. -/
def Agree (d : Disk) (stopAt : Option Text) (p q : Question) : Prop :=
  ∀ file, p.ComesTo d stopAt file → q.ComesTo d stopAt file → Nameless d file → p.name = q.name

/-- A question comes to one file of metadata at most. -/
theorem Question.ComesTo.unique {q : Question} {file file' : Text} (h : q.ComesTo d stopAt file)
    (h' : q.ComesTo d stopAt file') : file = file' :=
  Option.some.inj (Except.ok.inj (h.symm.trans h'))

namespace Remembers

variable {asked : List Question}

/-- After other questions the answer is a fresh one, or that of an earlier question that came to the
same nameless metadata. -/
theorem answer_cases (h : Remembers d stopAt asked known) (q : Question) :
    (answer d (.installed stopAt known) q = fresh d stopAt q ∧
        ∀ p ∈ asked, ∀ file, p.ComesTo d stopAt file → q.ComesTo d stopAt file →
          ¬ Nameless d file) ∨
      ∃ p ∈ asked, ∃ file, p.ComesTo d stopAt file ∧ q.ComesTo d stopAt file ∧ Nameless d file ∧
        ∃ r : ModuleRecord,
          answer d (.installed stopAt known) q = .ok (some { r with name := p.name }) ∧
            fresh d stopAt q = .ok (some { r with name := q.name }) := by
  have hanswer : answer d (.installed stopAt known) q = _ := answer_installed q
  have hfresh : fresh d stopAt q = _ := answer_installed q
  rcases hfound : metadataFrom d stopAt q.name q.context with e | _ | file
  · rw [hfound] at hanswer hfresh
    exact .inl ⟨hanswer.trans hfresh.symm, fun _ _ _ _ hq => nomatch hfound.symm.trans hq⟩
  · rw [hfound] at hanswer hfresh
    exact .inl ⟨hanswer.trans hfresh.symm, fun _ _ _ _ hq => nomatch hfound.symm.trans hq⟩
  have hq : q.ComesTo d stopAt file := hfound
  rw [hfound] at hanswer hfresh
  replace hfresh : fresh d stopAt q = (readMetadata d q.name file).1 := hfresh
  cases hknown : Entries.get? file known with
  | none =>
    -- Nothing is kept, so none of the earlier questions came to nameless metadata here.
    simp only [hknown] at hanswer
    refine .inl ⟨hanswer.trans hfresh.symm, fun p hp file' hp' hq' hnameless => ?_⟩
    obtain rfl := hq.unique hq'
    obtain ⟨r, hr⟩ := h.known_of hp hp' hnameless
    exact nomatch hknown.symm.trans hr
  | some kept =>
    -- What is kept was read for an earlier question, and only its name can be of that one.
    simp only [hknown] at hanswer
    obtain ⟨p, hp, hpfile, hread⟩ := h.of_known hknown
    by_cases hnameless : Nameless d file
    · obtain ⟨r, hr⟩ := readMetadata_of_nameless hnameless
      exact .inr ⟨p, hp, file, hpfile, hq, hnameless, r,
        hanswer.trans (hread.symm.trans (hr p.name)), hfresh.trans (hr q.name)⟩
    · refine .inl ⟨?_, fun p' _ file' _ hq' => ?_⟩
      · calc answer d (.installed stopAt known) q
          _ = (readMetadata d p.name file).1 := hanswer.trans hread.symm
          _ = (readMetadata d q.name file).1 := readMetadata_of_not_nameless hnameless _ _
          _ = fresh d stopAt q := hfresh.symm
      · exact hq.unique hq' ▸ hnameless

theorem withoutName_answer (h : Remembers d stopAt asked known) (q : Question) :
    withoutName (answer d (.installed stopAt known) q) = withoutName (fresh d stopAt q) := by
  rcases h.answer_cases q with ⟨heq, -⟩ | ⟨p, -, file, -, -, -, r, hanswer, hfresh⟩
  · rw [heq]
  · rw [hanswer, hfresh]
    rfl

/-- If the questions so far agree, the answer is a fresh one just if the question agrees with
them. -/
theorem answer_eq_fresh_iff (h : Remembers d stopAt asked known)
    (hagree : ∀ p ∈ asked, ∀ p' ∈ asked, Agree d stopAt p p') (q : Question) :
    answer d (.installed stopAt known) q = fresh d stopAt q ↔ ∀ p ∈ asked, Agree d stopAt p q := by
  rcases h.answer_cases q with
    ⟨heq, hnone⟩ | ⟨p, hp, file, hpfile, hq, hnameless, r, hanswer, hfresh⟩
  · exact iff_of_true heq fun p hp file hpfile hq hnameless =>
      absurd hnameless (hnone p hp file hpfile hq)
  · rw [hanswer, hfresh]
    constructor
    · intro hsame
      have hname : p.name = q.name := congrArg ModuleRecord.name
        (Option.some.inj (Except.ok.inj hsame))
      -- Any other question that came there agrees with the one that the record was read for.
      intro p' hp' file' hpfile' hq' hnameless'
      obtain rfl := hq.unique hq'
      exact (hagree p' hp' p hp file hpfile' hpfile hnameless).trans hname
    · intro h
      rw [h p hp file hpfile hq hnameless]

end Remembers

/-- **One registry and many.**  What one registry answers to any questions, one after the other, is
what fresh registries answer, but for the names in the records.  The names are the same too just if
questions that come to the same nameless metadata have the same name. -/
theorem answers_of_fresh (d : Disk) (stopAt : Option Text) (qs : List Question) :
    (answers d (.installed stopAt []) qs).map withoutName
        = qs.map (fun q => withoutName (fresh d stopAt q)) ∧
      (answers d (.installed stopAt []) qs = qs.map (fresh d stopAt) ↔
        ∀ p ∈ qs, ∀ q ∈ qs, Agree d stopAt p q) := by
  induction qs using List.reverseRecOn with
  | nil => simp [answers]
  | append_singleton qs q ih =>
    obtain ⟨hwithout, hsame⟩ := ih
    obtain ⟨known, hafter, hknown⟩ := after_installed d stopAt qs
    rw [answers_concat, hafter]
    simp only [List.map_append, List.map_singleton]
    refine ⟨by rw [hwithout, hknown.withoutName_answer], ?_⟩
    have hself : Agree d stopAt q q := fun _ _ _ _ => rfl
    have hsymm : ∀ {p}, Agree d stopAt p q → Agree d stopAt q p := fun h file hq hp hnameless =>
      (h file hp hq hnameless).symm
    rw [List.append_singleton_inj, hsame]
    simp only [List.forall_mem_append, List.forall_mem_singleton]
    constructor
    · rintro ⟨hagree, hanswer⟩
      have hnew := (hknown.answer_eq_fresh_iff hagree q).mp hanswer
      exact ⟨fun p hp => ⟨hagree p hp, hnew p hp⟩, fun p hp => hsymm (hnew p hp), hself⟩
    · rintro ⟨hall, -, -⟩
      have hagree : ∀ p ∈ qs, ∀ p' ∈ qs, Agree d stopAt p p' := fun p hp => (hall p hp).1
      exact ⟨hagree, (hknown.answer_eq_fresh_iff hagree q).mpr fun p hp => (hall p hp).2⟩

/-- Two spellings of one module whose metadata gives no name: one registry answers both questions
with the name in the first one, and fresh ones answer each with its own. -/
theorem name_of_first_lookup :
    let d : Disk := { top := [(installedName, .directory [(['m'], .directory
      [(metadataName, .file [0x7b, 0x7d] 0)])])] }
    let r : ModuleRecord := { name := ['m'], metadataFile := some (metadataPath ['m'] ['/']) }
    let qs : List Question := [⟨['m'], ['/']⟩, ⟨['m', '/'], ['/']⟩]
    answers d (.installed none []) qs = [.ok (some r), .ok (some r)] ∧
      qs.map (fresh d none) = [.ok (some r), .ok (some { r with name := ['m', '/'] })] := by
  intro d r qs
  have hfirst : metadataFrom d none ['m'] ['/'] = .ok r.metadataFile := by cbv
  have hsecond : metadataFrom d none ['m', '/'] ['/'] = .ok r.metadataFile := by cbv
  have hempty : d.lookup (metadataPath ['m'] ['/'])
      = .ok ([installedName, ['m'], metadataName], .file [0x7b, 0x7d] 0) := by cbv
  obtain ⟨events, hread⟩ := lookupInstalled_of_emptyMap hfirst hempty
  obtain ⟨others, hreread⟩ := lookupInstalled_of_emptyMap hsecond hempty
  have hkept : (lookupInstalled d none [(metadataPath ['m'] ['/'], r)] ['m', '/'] ['/']).1
      = .ok (some r) := lookupInstalled_of_known hsecond rfl
  constructor
  · show [(lookupInstalled d none [] ['m'] ['/']).1,
      (lookupInstalled d none (lookupInstalled d none [] ['m'] ['/']).2.1 ['m', '/'] ['/']).1] = _
    rw [hread]
    exact congrArg (fun answer => [.ok (some r), answer]) hkept
  · show [(lookupInstalled d none [] ['m'] ['/']).1, (lookupInstalled d none [] ['m', '/'] ['/']).1]
      = _
    rw [hread, hreread]

end Registry

end StyleImport
