/-
How the lookup of an installed module fails.

A module that is nowhere installed has no record, and neither has one whose metadata cannot be
opened or is no JSON.  That is an answer like any other.  Other faults of the metadata break the
lookup off, and so does a path that is too long to be asked for:

* `Disk.isFileOrFail_eq_error` — asking whether a path leads to a file fails for its length alone;
* `ModuleRecord.Malformed` — metadata that no record can be made of;
* `Registry.Breaks` — everything that breaks a lookup off;
* `Registry.lookupInstalled_eq_error`, `Registry.exists_error_of_breaks` — and nothing else does.
-/
import StyleImport.Module.Registry
import StyleImport.Proofs.Disk.Glob

namespace StyleImport

/-! ### Looking paths up -/

namespace Disk

variable {d : Disk} {p : Text}

/-- The faults of a path that leads to nothing. -/
inductive LookupFault (p : Text) : ReadFailure → Prop
  | nul : Text.HasNul p → LookupFault p .nulInPath
  | absent {e : OsError} : e.isAbsence = true → LookupFault p (.system e)
  | tooLong : LookupFault p (.system (.nameTooLong p))

theorem lookupFault_of_walk {follow : Bool} {links : Nat} {at_ names : List Text} {e : OsError}
    (h : walk d p follow links at_ names = .error e) : LookupFault p (.system e) := by
  -- A walk that goes on fails as the rest of it does; one that ends here says why.
  fun_induction walk d p follow links at_ names with
  | case2 _ _ _ _ _ ih | case3 _ _ _ _ _ _ ih | case10 _ _ _ _ _ _ _ _ _ _ _ _ _ ih
  | case11 _ _ _ _ _ _ _ _ _ _ _ _ ih => exact ih h
  | case1 | case5 | case7 => cases h
  | case4 => exact Except.error.inj h ▸ .tooLong
  | case6 | case8 | case9 | case12 => exact Except.error.inj h ▸ .absent rfl

theorem lookupFault_of_lookup {follow : Bool} {e : ReadFailure}
    (h : d.lookup p follow = .error e) : LookupFault p e := by
  rcases bind_eq_error h with h | ⟨⟨names, _ | n⟩, -, h⟩
  · unfold place at h
    split at h
    · rename_i hnul
      exact Except.error.inj h ▸ .nul (List.contains_iff_mem.mp hnul)
    · split at h
      · exact Except.error.inj h ▸ .absent rfl
      · split at h
        · exact Except.error.inj h ▸ .tooLong
        · obtain ⟨o, ho, rfl⟩ := eq_error_of_mapError h
          exact lookupFault_of_walk ho
  · exact Except.error.inj h ▸ .absent rfl
  · cases h

/-- Asking whether a path leads to a file fails only if the path, or a name that it leads through,
is too long. -/
theorem isFileOrFail_eq_error {e : ReadFailure} (h : d.isFileOrFail p = .error e) :
    e = .system (.nameTooLong p) := by
  unfold isFileOrFail askOrFail at h
  split at h
  · cases h
  · cases h
  · rename_i o ho
    split at h
    · cases h
    · rename_i hpresent
      cases lookupFault_of_lookup ho with
      | absent habsent => exact absurd habsent hpresent
      | tooLong => exact (Except.error.inj h).symm
  · rename_i o hnul hsystem ho
    cases lookupFault_of_lookup ho with
    | nul _ => exact absurd rfl hnul
    | absent _ | tooLong => exact absurd rfl (hsystem _)

theorem isFileOrFail_of_lookup {names : List Text} {n : Node} (h : d.lookup p = .ok (names, n)) :
    d.isFileOrFail p = .ok n.isFile := by
  rw [isFileOrFail, askOrFail, h]

theorem isFile_of_isFileOrFail (h : d.isFileOrFail p = .ok true) : d.isFile p = true := by
  unfold isFileOrFail askOrFail at h
  split at h
  · rename_i names n hlookup
    rw [isFile, node?, hlookup]
    exact Except.ok.inj h
  · cases h
  · split at h <;> cases h
  · cases h

/-- The path of a file has no impossible character in it. -/
theorem not_hasNul_of_isFile (h : d.isFile p = true) : ¬ Text.HasNul p := by
  intro hnul
  have hlookup : d.lookup p = .error .nulInPath := by
    rw [lookup, place, if_pos (List.contains_iff_mem.mpr hnul)]
    rfl
  rw [isFile, node?, hlookup] at h
  cases h

end Disk

/-! ### Metadata -/

namespace ModuleRecord

variable {metadata : Data}

/-- What metadata has for the place of the stylesheets. -/
def stylesheetDirIn (metadata : Data) : Option Data :=
  let options := firstTrue [metadata.get? "stylepath"]
  firstTrue [options.bind (Data.get? "stylesheetDir"), options.bind (Data.get? "sassDir")]

/-- What metadata has for the module's entry. -/
def mainPathIn (metadata : Data) : Option Data :=
  let options := firstTrue [metadata.get? "stylepath"]
  firstTrue [options.bind (Data.get? "main"), metadata.get? "main"]

/-- What metadata has for the module's name. -/
def givenName (metadata : Data) : Option Data := firstTrue [metadata.get? "name"]

/-- A value where a text should be. -/
def NoText (v : Option Data) : Prop := ∃ d, v = some d ∧ ∀ t, d ≠ .scalar (.text t)

/-- Metadata that no record can be made of, and how that fails. -/
inductive Malformed (metadata : Data) : Failure → Prop
  /-- It is no map. -/
  | notAMap : (∀ es, metadata ≠ .map es) → Malformed metadata .notAMap
  /-- The place of the stylesheets is no text. -/
  | stylesheetDir : NoText (stylesheetDirIn metadata) → Malformed metadata .wrongKind
  /-- The module's entry is no text. -/
  | mainPath : NoText (mainPathIn metadata) → Malformed metadata .wrongKind
  /-- The module's name is no text. -/
  | name : NoText (givenName metadata) →
    Malformed metadata (.invalid [⟨[['n', 'a', 'm', 'e']], .text⟩])

theorem pathIn_eq_error {dir : Text} {v : Option Data} {e : Failure} :
    pathIn dir v = .error e ↔ NoText v ∧ e = .wrongKind := by
  unfold NoText
  fun_cases pathIn dir v <;> simp_all [eq_comm]

theorem nameIn_eq_error {asked : Text} {v : Option Data} {e : Failure} :
    nameIn asked v = .error e ↔ NoText v ∧ e = .invalid [⟨[['n', 'a', 'm', 'e']], .text⟩] := by
  rcases v with _ | d
  · simp [nameIn, NoText]
  · by_cases htext : ∃ t, d = .scalar (.text t)
    · obtain ⟨t, rfl⟩ := htext
      simp [nameIn, NoText, Checked.text, Except.mapError]
    · have hfail : Checked.text d = .error [⟨[], .text⟩] :=
        Checked.text.eq_2 d fun t ht => htext ⟨t, ht⟩
      push Not at htext
      simpa [nameIn, NoText, hfail, Except.mapError, htext] using eq_comm

theorem malformed_of_ofMetadata {asked file : Text} {e : Failure}
    (h : ofMetadata asked file metadata = .error e) : Malformed metadata e := by
  cases metadata with
  | map es =>
    rcases bind_eq_error h with h | ⟨stylesheetDir, -, h⟩
    · obtain ⟨hdir, rfl⟩ := pathIn_eq_error.mp h
      exact .stylesheetDir hdir
    rcases bind_eq_error h with h | ⟨mainPath, -, h⟩
    · obtain ⟨hmain, rfl⟩ := pathIn_eq_error.mp h
      exact .mainPath hmain
    rcases bind_eq_error h with h | ⟨name, -, h⟩
    · obtain ⟨hname, rfl⟩ := nameIn_eq_error.mp h
      exact .name hname
    · cases h
  | scalar s | list items => exact Except.error.inj h ▸ .notAMap (by simp)

/-- No record is made of malformed metadata. -/
theorem Malformed.ofMetadata_ne_ok {e : Failure} (h : Malformed metadata e) (asked file : Text)
    (r : ModuleRecord) : ofMetadata asked file metadata ≠ .ok r := by
  intro hok
  cases metadata with
  | scalar s | list items => cases hok
  | map es =>
    obtain ⟨stylesheetDir, hdir, hok⟩ := bind_eq_ok hok
    obtain ⟨mainPath, hmain, hok⟩ := bind_eq_ok hok
    obtain ⟨name, hname, -⟩ := bind_eq_ok hok
    -- Where a text should be, an error would have come before the record.
    cases h with
    | notAMap h => exact h es rfl
    | stylesheetDir h => exact absurd (hdir.symm.trans (pathIn_eq_error.mpr ⟨h, rfl⟩)) (by simp)
    | mainPath h => exact absurd (hmain.symm.trans (pathIn_eq_error.mpr ⟨h, rfl⟩)) (by simp)
    | name h => exact absurd (hname.symm.trans (nameIn_eq_error.mpr ⟨h, rfl⟩)) (by simp)

end ModuleRecord

/-! ### Lookups -/

namespace Registry

variable {d : Disk} {stopAt : Option Text} {known : List (Text × ModuleRecord)}
  {name context : Text} {e : Failure}

/-- The file of a module's metadata, as it is found from a place. -/
def metadataFrom (d : Disk) (stopAt : Option Text) (name context : Text) :
    Except Failure (Option Text) :=
  searchPath d context >>= findInstalled d stopAt name

/-- Metadata that is there and comes to no answer. -/
inductive Unusable (d : Disk) (file : Text) : Failure → Prop
  /-- Its bytes are no text. -/
  | undecodable {f : Utf8.Fault} : d.readText file = .error (.undecodable f) →
    Unusable d file (.read (.undecodable f))
  /-- An integer in it has too many digits. -/
  | tooManyDigits {t : Text} {digits offset : Nat} : d.readText file = .ok t →
    Json.read t = .error ⟨.tooManyDigits digits, offset⟩ →
    Unusable d file (.badValue (Json.Problem.tooManyDigits digits).message)
  /-- It is JSON of another shape. -/
  | malformed {t : Text} {metadata : Data} {e : Failure} : d.readText file = .ok t →
    Json.read t = .ok metadata → ModuleRecord.Malformed metadata e → Unusable d file e

/-- Everything that breaks off the lookup of a module from a place. -/
inductive Breaks (d : Disk) (stopAt : Option Text) (name context : Text) : Failure → Prop
  /-- The path of the place, or one that the module's metadata may have, is too long. -/
  | tooLong {p : Text} : (p = Path.fromRoot d.cwdPath context ∨ ∃ dir, p = metadataPath name dir) →
    metadataFrom d stopAt name context = .error (.read (.system (.nameTooLong p))) →
    Breaks d stopAt name context (.read (.system (.nameTooLong p)))
  /-- The metadata is there and comes to no answer. -/
  | unusable {file : Text} {e : Failure} : metadataFrom d stopAt name context = .ok (some file) →
    Unusable d file e → Breaks d stopAt name context e

/-- What breaks a lookup off is none of the errors that imports promise. -/
theorem Breaks.ne_promised (h : Breaks d stopAt name context e) (e' : ImportError) :
    e ≠ .promised e' := by
  rintro rfl
  cases h with
  | unusable _ hunusable =>
    cases hunusable with
    | malformed _ _ hmalformed => cases hmalformed

/-- A search finds nothing, or a file, or a path that is too long to be asked for. -/
theorem findInstalled_cases (d : Disk) (stopAt : Option Text) (name : Text) (dirs : List Text) :
    findInstalled d stopAt name dirs = .ok none ∨ ∃ dir ∈ dirs,
      d.isFile (metadataPath name dir) = true ∧
          findInstalled d stopAt name dirs = .ok (some (metadataPath name dir)) ∨
        findInstalled d stopAt name dirs
          = .error (.read (.system (.nameTooLong (metadataPath name dir)))) := by
  induction dirs with
  | nil => exact .inl rfl
  | cons dir dirs ih =>
    unfold findInstalled
    split
    · rename_i failure hfailure
      rw [Disk.isFileOrFail_eq_error hfailure]
      exact .inr ⟨dir, List.mem_cons_self, .inr rfl⟩
    · rename_i hfile
      exact .inr ⟨dir, List.mem_cons_self, .inl ⟨Disk.isFile_of_isFileOrFail hfile, rfl⟩⟩
    · split
      · exact .inl rfl
      · refine ih.imp_right ?_
        rintro ⟨dir', hdir', hfound⟩
        exact ⟨dir', List.mem_cons_of_mem _ hdir', hfound⟩

theorem metadataFrom_cases (d : Disk) (stopAt : Option Text) (name context : Text) :
    metadataFrom d stopAt name context = .ok none ∨
      (∃ file, d.isFile file = true ∧ metadataFrom d stopAt name context = .ok (some file)) ∨
      ∃ p, (p = Path.fromRoot d.cwdPath context ∨ ∃ dir, p = metadataPath name dir) ∧
        metadataFrom d stopAt name context = .error (.read (.system (.nameTooLong p))) := by
  unfold metadataFrom searchPath
  dsimp only
  split
  · rename_i failure hfailure
    rw [Disk.isFileOrFail_eq_error hfailure]
    exact .inr (.inr ⟨_, .inl rfl, rfl⟩)
  · rename_i isFile _
    rcases findInstalled_cases d stopAt name _ with hnone | ⟨dir, -, ⟨hfile, hfound⟩ | hlong⟩
    · exact .inl hnone
    · exact .inr (.inl ⟨_, hfile, hfound⟩)
    · exact .inr (.inr ⟨_, .inr ⟨dir, rfl⟩, hlong⟩)

theorem unusable_of_readMetadata {file : Text} (hfile : d.isFile file = true)
    (h : (readMetadata d name file).1 = .error e) : Unusable d file e := by
  unfold readMetadata at h
  split at h
  · cases h
  · rename_i failure hsystem hread
    obtain rfl := Except.error.inj h
    cases failure with
    | system o => exact absurd rfl (hsystem o)
    | undecodable f => exact .undecodable hread
    | nulInPath => exact absurd (Disk.readText_eq_nul hread) (Disk.not_hasNul_of_isFile hfile)
  · rename_i t hread
    split at h
    · rename_i digits offset hjson
      exact Except.error.inj h ▸ .tooManyDigits hread hjson
    · cases h
    · rename_i metadata hjson
      exact .malformed hread hjson (ModuleRecord.malformed_of_ofMetadata (eq_error_of_map h))

/-- A lookup answers what the metadata says, or what it said when it was read. -/
theorem fst_lookupInstalled (known : List (Text × ModuleRecord)) :
    (lookupInstalled d stopAt known name context).1
      = match metadataFrom d stopAt name context with
        | .error e => .error e
        | .ok none => .ok none
        | .ok (some file) =>
          match Entries.get? file known with
          | some r => .ok (some r)
          | none => (readMetadata d name file).1 := by
  unfold lookupInstalled metadataFrom
  rcases searchPath d context >>= findInstalled d stopAt name with failure | _ | file
  · rfl
  · rfl
  · dsimp only
    cases Entries.get? file known with
    | some r => rfl
    | none => rcases readMetadata d name file with ⟨_ | _ | r, events⟩ <;> rfl

/-- A record that is known is the answer. -/
theorem lookupInstalled_of_known {file : Text} {r : ModuleRecord}
    (hfile : metadataFrom d stopAt name context = .ok (some file))
    (hknown : Entries.get? file known = some r) :
    (lookupInstalled d stopAt known name context).1 = .ok (some r) := by
  rw [fst_lookupInstalled, hfile]
  simp only [hknown]

/-- Metadata that is an empty map makes a record with nothing but the name that was asked for, and
that record is remembered. -/
theorem lookupInstalled_of_emptyMap {file : Text} {place : List Text} {modified : Nat}
    (hfile : metadataFrom d stopAt name context = .ok (some file))
    (hempty : d.lookup file = .ok (place, .file [0x7b, 0x7d] modified)) :
    ∃ events, lookupInstalled d stopAt [] name context
      = (.ok (some { name, metadataFile := some file }),
        [(file, { name, metadataFile := some file })], events) := by
  have htext : d.readText file = .ok ['\x7b', '\x7d'] := by
    rw [Disk.readText, Disk.readBytes, hempty]
    rfl
  have htokens : Json.tokens 0 ['\x7b', '\x7d'] = [(.mark '\x7b', 0), (.mark '\x7d', 1)] := by
    simp [Json.tokens, Json.isBlank, Json.isMark]
  have hjson : Json.read ['\x7b', '\x7d'] = .ok (.map []) := by
    show Json.readTokens 2 ⟨[], .value⟩ (Json.tokens 0 ['\x7b', '\x7d']) = _
    rw [htokens]
    rfl
  have hfound : searchPath d context >>= findInstalled d stopAt name = .ok (some file) := hfile
  unfold lookupInstalled
  rw [hfound]
  simp only [Entries.get?, readMetadata, htext, hjson]
  exact ⟨_, rfl⟩

/-- A lookup among the installed modules fails only if something breaks it off. -/
theorem lookupInstalled_eq_error (h : (lookupInstalled d stopAt known name context).1 = .error e) :
    Breaks d stopAt name context e := by
  rw [fst_lookupInstalled] at h
  rcases metadataFrom_cases d stopAt name context
    with hnone | ⟨file, hfile, hfound⟩ | ⟨p, hp, hlong⟩
  · rw [hnone] at h
    cases h
  · rw [hfound] at h
    dsimp only at h
    split at h
    · cases h
    · exact .unusable hfound (unusable_of_readMetadata hfile h)
  · rw [hlong] at h
    obtain rfl := Except.error.inj h
    exact .tooLong hp hlong

/-- Metadata that comes to no answer gives none. -/
theorem Unusable.exists_error {file : Text} (h : Unusable d file e) (name : Text) :
    ∃ e', (readMetadata d name file).1 = .error e' := by
  cases h with
  | undecodable hread => simp [readMetadata, hread]
  | tooManyDigits hread hjson => simp [readMetadata, hread, hjson]
  | @malformed t metadata _ hread hjson hmalformed =>
    cases hrecord : ModuleRecord.ofMetadata name file metadata with
    | error e' => exact ⟨e', by simp only [readMetadata, hread, hjson, hrecord]; rfl⟩
    | ok r => exact absurd hrecord (hmalformed.ofMetadata_ne_ok name file r)

/-- What breaks a lookup off does so for every module that was not read before. -/
theorem exists_error_of_breaks (h : Breaks d stopAt name context e) :
    ∃ e', (lookupInstalled d stopAt [] name context).1 = .error e' := by
  rw [fst_lookupInstalled]
  cases h with
  | tooLong _ hsearch => exact ⟨_, by rw [hsearch]⟩
  | unusable hsearch hunusable =>
    obtain ⟨e', he'⟩ := hunusable.exists_error name
    exact ⟨e', by rw [hsearch]; exact he'⟩

/-- Metadata that the file system refuses to open, or that is no JSON, is as good as none. -/
theorem lookupInstalled_of_unreadable {file : Text}
    (hfile : metadataFrom d stopAt name context = .ok (some file))
    (hnew : Entries.get? file known = none)
    (hread : (∃ o, d.readText file = .error (.system o)) ∨ ∃ t problem offset,
      d.readText file = .ok t ∧ Json.read t = .error ⟨problem, offset⟩ ∧
        ∀ digits, problem ≠ .tooManyDigits digits) :
    (lookupInstalled d stopAt known name context).1 = .ok none := by
  rw [fst_lookupInstalled, hfile]
  simp only [hnew]
  rcases hread with ⟨o, hread⟩ | ⟨t, problem, offset, hread, hjson, hproblem⟩
  · simp only [readMetadata, hread]
  · simp only [readMetadata, hread, hjson]
    split
    · rename_i digits _ hfault
      exact absurd (congrArg Json.Fault.problem (Except.error.inj hfault)) (hproblem digits)
    · rfl
    · rename_i hfault
      cases hfault

/-- A name has no record among the declared modules if it is the name of none of them. -/
theorem get?_records_eq_none {records : List ModuleRecord} :
    Entries.get? name (records.foldl (fun es r => Entries.put r.name r es) []) = none ↔
      ∀ r ∈ records, r.name ≠ name := by
  have hfold : ∀ (records : List ModuleRecord) es,
      Entries.get? name (records.foldl (fun es r => Entries.put r.name r es) es) = none ↔
        Entries.get? name es = none ∧ ∀ r ∈ records, r.name ≠ name := by
    intro records
    induction records with
    | nil => simp
    | cons r records ih =>
      intro es
      rw [List.foldl_cons, ih, List.forall_mem_cons]
      by_cases hr : r.name = name
      · simp [← hr, Entries.get?_put_self]
      · rw [Entries.get?_put_of_ne (Ne.symm hr)]
        simp [hr]
  rw [hfold]
  simp [Entries.get?, Entries.getBy?]

/-- The record of a name is that of a declared module, or else of an installed one. -/
theorem lookup_declared_or_installed (declared : List (Text × ModuleRecord)) :
    lookup d name context (.chain [.declared declared, .installed stopAt known])
      = match Entries.get? name declared with
        | some r => (.ok (some r), .chain [.declared declared, .installed stopAt known], [])
        | none =>
          let (answer, known, events) := lookupInstalled d stopAt known name context
          (answer, .chain [.declared declared, .installed stopAt known], events) := by
  simp only [lookup, lookupAny]
  cases Entries.get? name declared with
  | some r => rfl
  | none =>
    rcases lookupInstalled d stopAt known name context with ⟨_ | _ | r, known', events⟩ <;> simp

end Registry

end StyleImport
