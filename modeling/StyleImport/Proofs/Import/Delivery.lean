/-
What imports deliver.

A resolution ends well in two ways: it marks a file and yields it at once, or it passes on what the
host's own resolver found.  `Plan.Delivers` holds of plans that have no third way and that mark only
files whose contents they know, and registrations.

* `Genuine` — what an importer finds itself;
* `Plan.Delivers` — the two ways, with the texts that a plan knows;
* `Importer.delivers_resolve` — every import delivers.
-/
import StyleImport.Proofs.Import.Attribution
import StyleImport.Proofs.Import.Locate
import StyleImport.Proofs.Import.Search

namespace StyleImport

/-! ### Registrations -/

namespace Registration

theorem isToken_of_token? {identifier token : Text} (h : token? identifier = some token) :
    isToken token = true := by
  unfold token? at h
  split at h
  · split at h
    · rename_i htoken
      rw [Option.some.injEq] at h
      rw [Bool.and_eq_true] at htoken
      exact h ▸ htoken.2
    · simp at h
  · simp at h

/-- The name of a registration tells its token and its path. -/
theorem file_injective {token token' path path' : Text} (h : isToken token = true)
    (h' : isToken token' = true) (hfile : file token path = file token' path') :
    token = token' ∧ path = path' := by
  have hcolon : token ++ ':' :: path = token' ++ ':' :: path' := by
    simpa [file] using hfile
  exact isToken_append_inj (by decide) h h' hcolon

end Registration

/-! ### Plans that deliver -/

/-- What an importer finds itself: the text of a file, under its absolute normal form, or a
registration. -/
def Genuine (cwd : Text) (known : Text → Text → Prop) (r : Resolved) : Prop :=
  Path.isAbsolute r.file = true ∧ Path.absolute cwd r.file = r.file ∧ known r.file r.contents ∨
    ∃ token path, Registration.isToken token = true ∧ r.file = Registration.file token path ∧
      r.contents = Registration.source token path

namespace Genuine

variable {cwd : Text} {known known' : Text → Text → Prop} {r r' : Resolved}

theorem mono (hknown : ∀ k t, known k t → known' k t) (h : Genuine cwd known r) :
    Genuine cwd known' r := by
  rcases h with ⟨habs, hkey, h⟩ | h
  · exact .inl ⟨habs, hkey, hknown _ _ h⟩
  · exact .inr h

/-- The name of what was found is the key by which it is recognized. -/
theorem importKey_file (h : Genuine cwd known r) : Session.importKey cwd r.file = r.file := by
  rcases h with ⟨_, hkey, _⟩ | ⟨token, path, _, hfile, _⟩
  · unfold Session.importKey
    split
    · rfl
    · exact hkey
  · rw [hfile]
    simp [Session.importKey, Registration.file, Registration.scheme]

/-- If each file has one text, then so has each name. -/
theorem contents_eq (hone : ∀ k t t', known k t → known k t' → t = t') (h : Genuine cwd known r)
    (h' : Genuine cwd known r') (hfile : r.file = r'.file) : r.contents = r'.contents := by
  -- No path is the name of a registration.
  have hscheme : ∀ token path, Path.isAbsolute (Registration.file token path) = false :=
    fun _ _ => rfl
  rcases h with ⟨habs, _, h⟩ | ⟨token, path, htoken, hf, hc⟩
  · rcases h' with ⟨_, _, h'⟩ | ⟨token', path', _, hf', _⟩
    · exact hone _ _ _ (hfile ▸ h) h'
    · rw [hfile, hf', hscheme] at habs
      exact absurd habs Bool.false_ne_true
  · rcases h' with ⟨habs', _, _⟩ | ⟨token', path', htoken', hf', hc'⟩
    · rw [← hfile, hf, hscheme] at habs'
      exact absurd habs' Bool.false_ne_true
    · have hsame := Registration.file_injective htoken htoken' (hf ▸ hf' ▸ hfile)
      rw [hc, hc', hsame.1, hsame.2]

end Genuine

namespace Plan

variable {α : Type}

/-- A plan that has only something for the journal before its result. -/
def Concludes (P : α → Prop) : Plan α → Prop
  | done a => P a
  | note _ next => next.Concludes P
  | _ => False

/-- A plan that ends well in two ways only: it passes on what the host's own resolver found, or it
marks a file and then yields it at once, with contents that it knows.  Before it starts it knows
the texts of some files, and it learns those of the files that it reads. -/
def Delivers (cwd : Text) (once : Bool) :
    Plan (Resolved × Finder) → (Text → Text → Prop) → Prop
  | done r, _ => r.2 = .host
  | fail _, _ => True
  | isFile _ next, known => ∀ b, (next b).Delivers cwd once known
  | lookup _ _ next, known => ∀ r, (next r).Delivers cwd once known
  | read p next, known =>
    (∀ t, (next (.ok t)).Delivers cwd once fun k t' =>
      known k t' ∨ k = Path.absolute cwd p ∧ t' = t) ∧
    ∀ e, (next (.error e)).Delivers cwd once known
  | askHost _ _ next, known => ∀ r, (next r).Delivers cwd once known
  | mark file next, known => ∀ first, (next first).Concludes fun r =>
    r.2 = .importer ∧ r.1.file = file ∧ r.1.alreadyImported = (once && !first) ∧
      Genuine cwd known r.1
  | register _ _ next, known => ∀ bound, (next bound).Delivers cwd once known
  | note _ next, known => next.Delivers cwd once known
  | pause next, known => next.Delivers cwd once known

theorem Concludes.mono {P Q : α → Prop} (hPQ : ∀ a, P a → Q a) {p : Plan α} (h : p.Concludes P) :
    p.Concludes Q := by
  induction p with
  | done a => exact hPQ a h
  | note e next ih => exact ih h
  | _ => exact h.elim

/-- Knowing more does no harm. -/
theorem Delivers.mono {cwd : Text} {once : Bool} {p : Plan (Resolved × Finder)}
    {known known' : Text → Text → Prop} (hknown : ∀ k t, known k t → known' k t)
    (h : p.Delivers cwd once known) : p.Delivers cwd once known' := by
  induction p generalizing known known' with
  | done r => exact h
  | fail e => trivial
  | isFile p next ih => exact fun b => ih b hknown (h b)
  | lookup n c next ih => exact fun r => ih r hknown (h r)
  | read p next ih =>
    refine ⟨fun t => ih _ ?_ (h.1 t), fun e => ih _ hknown (h.2 e)⟩
    rintro k t' (hk | hk)
    · exact .inl (hknown k t' hk)
    · exact .inr hk
  | askHost i p next ih => exact fun r => ih r hknown (h r)
  | mark file next ih =>
    intro first
    refine (h first).mono ?_
    rintro r ⟨hfinder, hfile, hflag, hgenuine⟩
    exact ⟨hfinder, hfile, hflag, hgenuine.mono hknown⟩
  | register t p next ih => exact fun bound => ih bound hknown (h bound)
  | note e next ih => exact ih hknown h
  | pause next ih => exact ih hknown h

theorem Concludes.unhurried {P : α → Prop} {p : Plan α} (h : p.Concludes P) :
    p.unhurried.Concludes P := by
  induction p with
  | done a => exact h
  | note e next ih => exact ih h
  | _ => exact h.elim

theorem Delivers.unhurried {cwd : Text} {once : Bool} {p : Plan (Resolved × Finder)}
    {known : Text → Text → Prop} (h : p.Delivers cwd once known) :
    p.unhurried.Delivers cwd once known := by
  induction p generalizing known with
  | done r => exact h
  | fail e => trivial
  | isFile p next ih => exact fun b => ih b (h b)
  | lookup n c next ih => exact fun r => ih r (h r)
  | read p next ih => exact ⟨fun t => ih _ (h.1 t), fun e => ih _ (h.2 e)⟩
  | askHost i p next ih => exact fun r => ih r (h r)
  | mark file next ih => exact fun first => (h first).unhurried
  | register t p next ih => exact fun bound => ih bound (h bound)
  | note e next ih => exact ih h
  | pause next ih => exact ih h

section Attributed

variable {cwd : Text} {once : Bool} {known : Text → Text → Prop} {finder : Finder}

/-- A plan that only looks delivers what comes after it delivers. -/
theorem LooksOnly.delivers_bind {p : Plan α} (hp : p.LooksOnly) {f : α → Plan Resolved}
    (hf : ∀ a, ((f a).attributed finder).Delivers cwd once known) :
    ((p.bind f).attributed finder).Delivers cwd once known := by
  induction p with
  | done a => exact hf a
  | fail e => trivial
  | isFile p next ih => exact fun b => ih b (hp b)
  | lookup n c next ih => exact fun r => ih r (hp r)
  | note e next ih => exact ih hp
  | _ => exact hp.elim

theorem Concludes.bind_note {P : Resolved × Finder → Prop} {p : Plan Resolved}
    (h : (p.attributed finder).Concludes P) (e : Resolved → Event) :
    ((p.bind fun r => note (e r) (done r)).attributed finder).Concludes P := by
  induction p with
  | done a => exact h
  | note e next ih => exact ih h
  | _ => exact h.elim

/-- A last word for the journal is no obstacle. -/
theorem Delivers.bind_note {p : Plan Resolved} (h : (p.attributed finder).Delivers cwd once known)
    (e : Resolved → Event) :
    ((p.bind fun r => note (e r) (done r)).attributed finder).Delivers cwd once known := by
  induction p generalizing known finder with
  | done r => exact h
  | fail e => trivial
  | isFile p next ih => exact fun b => ih b (h b)
  | lookup n c next ih => exact fun r => ih r (h r)
  | read p next ih => exact ⟨fun t => ih _ (h.1 t), fun e => ih _ (h.2 e)⟩
  | askHost i p next ih => exact fun r => ih r (h r)
  | mark file next ih => exact fun first => (h first).bind_note e
  | register t p next ih => exact fun bound => ih bound (h bound)
  | note e next ih => exact ih h
  | pause next ih => exact ih h

end Attributed

end Plan

/-! ### Imports deliver -/

namespace Importer

variable {i : Importer} {known : Text → Text → Prop}

theorem delivers_importOnce {r : Resolved} (hr : Genuine i.cwd known r)
    (hnew : r.alreadyImported = false) :
    ((i.importOnce r).attributed .importer).Delivers i.cwd i.settings.enableImportOnce known := by
  intro first
  dsimp only
  split
  · rename_i hagain
    exact ⟨rfl, rfl, hagain.symm, hr⟩
  · rename_i hfirst
    rw [Bool.not_eq_true] at hfirst
    exact ⟨rfl, rfl, hnew.trans hfirst.symm, hr⟩

theorem delivers_orHost (identifier prev : Text) {onMiss : Plan Resolved}
    (h : (onMiss.attributed .importer).Delivers i.cwd i.settings.enableImportOnce known) :
    ((orHost identifier prev id onMiss).attributed .importer).Delivers i.cwd
      i.settings.enableImportOnce known := by
  intro answer
  cases answer with
  | none => exact h
  | some r => exact rfl

/-- What is made of a search among candidates delivers if it does so without a hit, whatever was
learnt on the way, and with any hit. -/
theorem delivers_readFirst_bind {name : Text} {paths : List Text}
    (hpaths : ∀ p ∈ paths, Path.isAbsolute p = true ∧ Path.absolute i.cwd p = p)
    {f : Option Resolved × List Text → Plan Resolved}
    (hmiss : ∀ known probed, ((f (none, probed)).attributed .importer).Delivers i.cwd
      i.settings.enableImportOnce known)
    (hhit : ∀ known probed r, Genuine i.cwd known r → r.alreadyImported = false →
      ((f (some r, probed)).attributed .importer).Delivers i.cwd i.settings.enableImportOnce known)
    (probed : List Text) (known : Text → Text → Prop) :
    (((readFirst name probed paths).bind f).attributed .importer).Delivers i.cwd
      i.settings.enableImportOnce known := by
  -- What was known before a candidate is read is still known after it, so `known` is general.
  induction paths generalizing probed known with
  | nil => exact hmiss known probed
  | cons p ps ih =>
    have hps := ih fun q hq => hpaths q (List.mem_cons_of_mem _ hq)
    obtain ⟨habs, hkey⟩ := hpaths p List.mem_cons_self
    intro b
    cases b with
    | false => exact hps _ known
    | true =>
      rw [readCandidate_eq]
      constructor
      · -- A hit is known, since it was just read.
        intro t
        refine hhit _ (addProbed probed p) { contents := t, file := p } ?_ rfl
        exact .inl ⟨habs, hkey, .inr ⟨hkey.symm, rfl⟩⟩
      · intro e
        cases hmissing : e.isMissing with
        | true =>
          simp only [Search.ofRead, hmissing, if_true]
          exact hps _ known
        | false =>
          simp only [Search.ofRead, hmissing, Bool.false_eq_true, if_false]
          trivial

theorem delivers_resolveRelative (hcwd : Path.isAbsolute i.cwd = true) (l : Located) (prev : Text)
    (withIncludes : Bool) (probed : List Text) :
    ((i.resolveRelative l prev withIncludes probed).attributed .importer).Delivers i.cwd
      i.settings.enableImportOnce known := by
  refine delivers_readFirst_bind (fun p hp => ?_) (fun known probed => ?_) ?_ probed known
  · exact ⟨isAbsolute_of_mem_candidates hcwd hp, absolute_of_mem_candidates hcwd hp⟩
  · exact delivers_orHost l.identifier prev trivial
  · intro known probed r hr hnew
    exact delivers_importOnce hr hnew

theorem delivers_resolveInModule (hcwd : Path.isAbsolute i.cwd = true) (l : Located)
    (prev dir : Text) :
    ((i.resolveInModule l prev dir).attributed .importer).Delivers i.cwd
      i.settings.enableImportOnce known := by
  refine delivers_readFirst_bind (fun p hp => ?_) (fun known probed => ?_) ?_ [] known
  · exact ⟨isAbsolute_of_mem_candidates hcwd hp, absolute_of_mem_candidates hcwd hp⟩
  · exact delivers_orHost l.identifier prev (delivers_resolveRelative hcwd l prev false probed)
  · intro known probed r hr hnew
    exact delivers_importOnce hr hnew

theorem delivers_resolveLocated (hcwd : Path.isAbsolute i.cwd = true) (l : Located) (prev : Text) :
    ((i.resolveLocated l prev).attributed .importer).Delivers i.cwd
      i.settings.enableImportOnce known := by
  unfold resolveLocated
  split
  · exact delivers_resolveRelative hcwd l prev true []
  · split
    · exact delivers_resolveInModule hcwd l prev _
    · split
      · exact delivers_resolveRelative hcwd l prev true []
      · exact delivers_orHost l.identifier prev trivial

theorem delivers_resolveToken {token : Text} (htoken : Registration.isToken token = true)
    (prev : Text) :
    ((i.resolveToken token prev).attributed .importer).Delivers i.cwd
      i.settings.enableImportOnce known := by
  have hbind : ∀ path, ((i.bindToken token path).attributed .importer).Delivers i.cwd
      i.settings.enableImportOnce known := by
    intro path bound
    exact delivers_importOnce (.inr ⟨token, bound, htoken, rfl, rfl⟩) rfl
  unfold resolveToken
  split
  · exact hbind _
  · exact fun isRealFile => hbind _

/-- Every import delivers, whatever is known before it starts. -/
theorem delivers_resolve (hcwd : Path.isAbsolute i.cwd = true) (identifier prev : Text) :
    ((i.resolve identifier prev).attributed .importer).Delivers i.cwd
      i.settings.enableImportOnce known := by
  unfold resolve
  split
  · rename_i token htoken
    exact delivers_resolveToken (Registration.isToken_of_token? htoken) prev
  · -- Nothing is known of what is located but that nothing was marked on the way.
    refine Plan.Delivers.bind_note ?_ _
    exact (Located.looksOnly_locate _ _ _).delivers_bind fun l =>
      delivers_resolveLocated hcwd l prev

end Importer

end StyleImport
