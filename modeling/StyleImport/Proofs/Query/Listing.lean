/-
What listings answer.

A directory is listed in one pass over the paths that a pattern describes there, in order.  What is
not of the kind that is asked for is passed over, and the first of the others that the sandbox does
not admit is named in an error instead of a list.

* `Disk.pairwise_glob` — the paths that a pattern describes come in order;
* `Query.admitted_eq` — a list of all entries, or an error about the first that is not admitted;
* `Query.listings_complete` — what listings of files and of directories answer, and that together
  they have everything that the pattern describes.
-/
import Mathlib.Data.List.Permutation
import Mathlib.Tactic.Common
import StyleImport.Proofs.Query.Failures
import StyleImport.Proofs.Sandbox

namespace StyleImport

/-! ### The order of texts -/

namespace Text

theorem le_total (s t : Text) : (le s t || le t s) = true := by
  induction s generalizing t with
  | nil => rfl
  | cons a as ih =>
    cases t with
    | nil => rfl
    | cons b bs =>
      rcases Nat.lt_trichotomy a.toNat b.toNat with hlt | heq | hgt
      · simp [le, hlt]
      · obtain rfl : a = b := Char.toNat_inj.mp heq
        simpa [le] using ih bs
      · simp [le, hgt]

theorem le_trans {s t u : Text} (hst : le s t = true) (htu : le t u = true) : le s u = true := by
  induction s generalizing t u with
  | nil => rfl
  | cons a as ih =>
    cases t with
    | nil => cases hst
    | cons b bs =>
      cases u with
      | nil => cases htu
      | cons c cs =>
        simp only [le, Bool.or_eq_true, Bool.and_eq_true, decide_eq_true_eq] at hst htu ⊢
        -- A smaller character decides at once; equal ones leave the rest to decide.
        rcases hst with hab | ⟨rfl, hrest⟩
        · rcases htu with hbc | ⟨rfl, -⟩
          · left
            omega
          · exact .inl hab
        · rcases htu with hac | ⟨rfl, hrest'⟩
          · exact .inl hac
          · exact .inr ⟨rfl, ih hrest hrest'⟩

end Text

theorem Disk.pairwise_glob {d : Disk} {dir pattern : Text} {found : List Text}
    (h : d.glob dir pattern = .ok found) : found.Pairwise fun s t => Text.le s t = true := by
  unfold glob at h
  split at h
  · obtain rfl : [] = found := Except.ok.inj h
    exact List.Pairwise.nil
  · obtain ⟨paths, -, rfl⟩ := eq_ok_of_map h
    exact @List.pairwise_mergeSort _ Text.le (fun _ _ _ => Text.le_trans) Text.le_total paths

namespace Query

variable {c : QueryContext} {registered : Option Value} {dir pattern : Text} {found : List Text}

/-! ### Entries of one kind -/

theorem admitted_eq (c : QueryContext) (dir : Text) (entries : List Text) :
    admitted c dir entries
      = match entries.find? fun e => !c.permits (Path.join dir e) with
        | some e => .error (.promised (.denied e))
        | none => .ok (.list (entries.map .quoted) .comma) := by
  have hpass := forIn_stop_eq (fun e => !c.permits (Path.join dir e))
    (fun e => Failure.promised (.denied e)) entries
  unfold admitted
  show (forIn entries PUnit.unit _ : Except Failure PUnit).bind _ = _
  rw [hpass]
  cases entries.find? fun e => !c.permits (Path.join dir e) <;> rfl

/-- The paths among those that a pattern describes which lead to directories, or which do not. -/
def ofKind (c : QueryContext) (dir : Text) (directories : Bool) (found : List Text) : List Text :=
  found.filter fun e => c.disk.isDirectory (Path.join dir e) = directories

/-- The query for the files of a directory, or for its directories. -/
def listing : Bool → Query
  | false => .listFiles
  | true => .listDirectories

/-- Whether a listing is asked for a directory and a pattern; a pattern that is left out is the
star. -/
def AsksFor (args : List Value) (dir pattern : Text) : Prop :=
  ∃ isQuoted, (∃ isQuoted', args = [.string dir isQuoted, .string pattern isQuoted']) ∨
    args = [.string dir isQuoted] ∧ pattern = ['*']

variable {args : List Value}

theorem compute_listing (h : AsksFor args dir pattern) (directories : Bool) :
    compute c registered (listing directories) args
      = (c.check dir).bind fun _ => ((glob c.disk dir pattern).mapError .read).bind fun entries =>
          admitted c dir ((entries.filter fun (_, isDir) => isDir = directories).map (·.1)) := by
  obtain ⟨q, ⟨q', rfl⟩ | ⟨rfl, rfl⟩⟩ := h <;> cases directories <;> rfl

theorem answer_listing_denied (h : AsksFor args dir pattern) (hdir : c.permits dir = false)
    (directories : Bool) :
    answer c registered (listing directories) args = .ok (.ofError (.denied dir)) := by
  unfold answer
  rw [compute_listing h, QueryContext.check, hdir]
  rfl

theorem answer_listing (h : AsksFor args dir pattern) (hdir : c.permits dir = true)
    (hfound : c.disk.glob dir pattern = .ok found) (directories : Bool) :
    answer c registered (listing directories) args
      = match (ofKind c dir directories found).find? fun e => !c.permits (Path.join dir e) with
        | some e => .ok (.ofError (.denied e))
        | none => .ok (.list ((ofKind c dir directories found).map .quoted) .comma) := by
  have hentries : (((found.map fun n => (n, c.disk.isDirectory (Path.join dir n))).filter
      fun (_, isDir) => isDir = directories).map (·.1)) = ofKind c dir directories found := by
    rw [List.filter_map, List.map_map]
    exact List.map_id _
  unfold answer
  rw [compute_listing h, QueryContext.check, hdir, glob, hfound]
  show asValue (admitted c dir _) = _
  rw [hentries, admitted_eq]
  cases (ofKind c dir directories found).find? fun e => !c.permits (Path.join dir e) <;> rfl

/-! ### What both listings say together -/

theorem answer_listing_eq_list (h : AsksFor args dir pattern) (hdir : c.permits dir = true)
    (hfound : c.disk.glob dir pattern = .ok found) {directories : Bool} {items : List Value}
    (hanswer : answer c registered (listing directories) args = .ok (.list items .comma)) :
    (∀ e ∈ ofKind c dir directories found, c.permits (Path.join dir e) = true) ∧
      items = (ofKind c dir directories found).map .quoted := by
  rw [answer_listing h hdir hfound] at hanswer
  split at hanswer
  · -- An error value is no list.
    cases hanswer
  · rename_i hnone
    constructor
    · intro e he
      simpa using List.find?_eq_none.mp hnone e he
    · exact ((Value.list.inj (Except.ok.inj hanswer)).1).symm

theorem answer_listing_of_permits (h : AsksFor args dir pattern) (hdir : c.permits dir = true)
    (hfound : c.disk.glob dir pattern = .ok found) {directories : Bool}
    (hall : ∀ e ∈ ofKind c dir directories found, c.permits (Path.join dir e) = true) :
    answer c registered (listing directories) args
      = .ok (.list ((ofKind c dir directories found).map .quoted) .comma) := by
  have hnone : (ofKind c dir directories found).find? (fun e => !c.permits (Path.join dir e))
      = none := by
    refine List.find?_eq_none.mpr fun e he => ?_
    rw [hall e he]
    decide
  rw [answer_listing h hdir hfound, hnone]

theorem answer_listing_of_first (h : AsksFor args dir pattern) (hdir : c.permits dir = true)
    (hfound : c.disk.glob dir pattern = .ok found) {directories : Bool} {before after : List Text}
    {e : Text} (hsplit : ofKind c dir directories found = before ++ e :: after)
    (hbefore : ∀ e' ∈ before, c.permits (Path.join dir e') = true)
    (he : c.permits (Path.join dir e) = false) :
    answer c registered (listing directories) args = .ok (.ofError (.denied e)) := by
  have hsome : (ofKind c dir directories found).find? (fun e => !c.permits (Path.join dir e))
      = some e := by
    rw [List.find?_eq_some_iff_append]
    refine ⟨by rw [he]; rfl, before, after, hsplit, fun e' he' => ?_⟩
    rw [hbefore e' he']
    rfl
  rw [answer_listing h hdir hfound, hsome]

theorem perm_ofKind (c : QueryContext) (dir : Text) (found : List Text) :
    (ofKind c dir false found ++ ofKind c dir true found).Perm found := by
  have hnot : ofKind c dir false found
      = found.filter fun e => !decide (c.disk.isDirectory (Path.join dir e) = true) := by
    refine List.filter_congr fun e _ => ?_
    cases c.disk.isDirectory (Path.join dir e) <;> rfl
  rw [hnot]
  exact List.perm_append_comm.trans (List.filter_append_perm _ found)

theorem disjoint_ofKind (c : QueryContext) (dir : Text) (found : List Text) :
    (ofKind c dir false found).Disjoint (ofKind c dir true found) := by
  intro e hfile hdirectory
  have hno := (List.mem_filter.mp hfile).2
  have hyes := (List.mem_filter.mp hdirectory).2
  rw [decide_eq_true_eq] at hno hyes
  exact Bool.noConfusion (hno.symm.trans hyes)

/-- A directory that is not admitted is not listed.  In any other, the files that a pattern
describes are listed in order if all of them are admitted, and else the first that is not is named;
and so are the directories.  Both lists together are everything that the pattern describes, and all
of it is in the sandbox. -/
theorem listings_complete (h : AsksFor args dir pattern) :
    (c.permits dir = false → ∀ directories,
      answer c registered (listing directories) args = .ok (.ofError (.denied dir))) ∧
    (c.permits dir = true → ∀ found, c.disk.glob dir pattern = .ok found →
      (found.Pairwise fun s t => Text.le s t = true) ∧
      (∀ directories,
        ((∃ items, answer c registered (listing directories) args = .ok (.list items .comma)) ↔
          ∀ e ∈ ofKind c dir directories found, c.permits (Path.join dir e) = true) ∧
        ((∀ e ∈ ofKind c dir directories found, c.permits (Path.join dir e) = true) →
          answer c registered (listing directories) args
            = .ok (.list ((ofKind c dir directories found).map .quoted) .comma)) ∧
        (∀ before e after, ofKind c dir directories found = before ++ e :: after →
          (∀ e' ∈ before, c.permits (Path.join dir e') = true) →
          c.permits (Path.join dir e) = false →
          answer c registered (listing directories) args = .ok (.ofError (.denied e)))) ∧
      (∀ files directories : List Text,
        answer c registered .listFiles args = .ok (.list (files.map .quoted) .comma) →
        answer c registered .listDirectories args
          = .ok (.list (directories.map .quoted) .comma) →
        files.Disjoint directories ∧ (files ++ directories).Perm found ∧
          ∀ e ∈ files ++ directories, c.permits (Path.join dir e) = true ∧
            ∀ roots, c.sandbox = .roots roots → ∃ root ∈ roots,
              Path.components (Path.absolute c.disk.cwdPath root) <+:
                Path.components (Path.absolute c.disk.cwdPath (Path.join dir e)))) := by
  refine ⟨fun hdir => answer_listing_denied h hdir, fun hdir found hfound => ?_⟩
  refine ⟨Disk.pairwise_glob hfound, fun directories => ⟨⟨?_, fun hall => ?_⟩, ?_, ?_⟩, ?_⟩
  · rintro ⟨items, hanswer⟩
    exact (answer_listing_eq_list h hdir hfound hanswer).1
  · exact ⟨_, answer_listing_of_permits h hdir hfound hall⟩
  · exact answer_listing_of_permits h hdir hfound
  · intro before e after
    exact answer_listing_of_first h hdir hfound
  · intro files directories hfiles hdirectories
    have hquoted : Function.Injective Value.quoted := fun s t hst => (Value.string.inj hst).1
    have hfiles : answer c registered (listing false) args = _ := hfiles
    have hdirectories : answer c registered (listing true) args = _ := hdirectories
    obtain ⟨hfilesIn, hf⟩ := answer_listing_eq_list h hdir hfound hfiles
    obtain ⟨hdirectoriesIn, hd⟩ := answer_listing_eq_list h hdir hfound hdirectories
    obtain rfl := hquoted.list_map hf
    obtain rfl := hquoted.list_map hd
    refine ⟨disjoint_ofKind c dir found, perm_ofKind c dir found, fun e he => ?_⟩
    have hin : c.permits (Path.join dir e) = true :=
      (List.mem_append.mp he).elim (hfilesIn e) (hdirectoriesIn e)
    refine ⟨hin, fun roots hroots => ?_⟩
    unfold QueryContext.permits at hin
    rw [hroots] at hin
    exact (Sandbox.permits_iff rfl).mp hin

/-- A directory with a file and a directory in it, next to a file outside of the sandbox: the plain
pattern describes what is inside, an absolute one also the file outside. -/
theorem listings_of_directory :
    let d : Disk := { top := [
      (['d'], .directory [(['f'], .file [] 0), (['s'], .directory [])]), (['x'], .file [] 0)] }
    let c : QueryContext := ⟨d, .roots [['/', 'd']], {}⟩
    let asked (dir pattern : Text) (q : Query) := answer c none q [.quoted dir, .quoted pattern]
    asked ['/'] ['*'] .listFiles = .ok (.ofError (.denied ['/'])) ∧
      asked ['/', 'd'] ['*'] .listFiles = .ok (.list [.quoted ['f']] .comma) ∧
      asked ['/', 'd'] ['*'] .listDirectories = .ok (.list [.quoted ['s']] .comma) ∧
      [['f'], ['s']].Perm [['f'], ['s']] ∧
      asked ['/', 'd'] ['/', '?'] .listFiles = .ok (.ofError (.denied ['/', 'x'])) ∧
      asked ['/', 'd'] ['/', '?'] .listDirectories
        = .ok (.list [.quoted ['/', 'd']] .comma) := by
  intro d c asked
  have hasks (dir pattern : Text) : AsksFor [.quoted dir, .quoted pattern] dir pattern :=
    ⟨true, .inl ⟨true, rfl⟩⟩
  have hin : c.permits ['/', 'd'] = true := by decide
  have hplain : c.disk.glob ['/', 'd'] ['*'] = .ok [['f'], ['s']] := by cbv
  have habsolute : c.disk.glob ['/', 'd'] ['/', '?'] = .ok [['/', 'd'], ['/', 'x']] := by cbv
  have hfiles : ofKind c ['/', 'd'] false [['f'], ['s']] = [['f']] := by cbv
  have hdirectories : ofKind c ['/', 'd'] true [['f'], ['s']] = [['s']] := by cbv
  have hfiles' : ofKind c ['/', 'd'] false [['/', 'd'], ['/', 'x']] = [['/', 'x']] := by cbv
  have hdirectories' : ofKind c ['/', 'd'] true [['/', 'd'], ['/', 'x']] = [['/', 'd']] := by cbv
  obtain ⟨-, hlisted, htogether⟩ :=
    (@listings_complete c none _ _ _ (hasks ['/', 'd'] ['*'])).2 hin _ hplain
  obtain ⟨-, hlisted', -⟩ :=
    (@listings_complete c none _ _ _ (hasks ['/', 'd'] ['/', '?'])).2 hin _ habsolute
  have hf := (hlisted false).2.1 (by rw [hfiles]; decide)
  have hs := (hlisted true).2.1 (by rw [hdirectories]; decide)
  have hd := (hlisted' true).2.1 (by rw [hdirectories']; decide)
  rw [hfiles] at hf
  rw [hdirectories] at hs
  rw [hdirectories'] at hd
  refine ⟨?_, hf, hs, (htogether [['f']] [['s']] hf hs).2.1, ?_, hd⟩
  · exact (@listings_complete c none _ _ _ (hasks ['/'] ['*'])).1 (by decide) false
  · exact (hlisted' false).2.2 [] ['/', 'x'] [] hfiles' (by simp) (by decide)

end Query

end StyleImport
