/-
The characters of documents.

A document is written in printable ASCII characters and line feeds alone, and so in lines that
carriage returns do not end.

* `Yaml.printable_write` — the text of a map is printable;
* `Yaml.readsBack_of_read` — a map is read back from a file if it is from its text.
-/
import Mathlib.Data.List.Basic
import StyleImport.Proofs.Data.Format
import StyleImport.Yaml.Format

namespace StyleImport

namespace Yaml

/-- A text of printable characters and line ends. -/
def Printable (t : Text) : Prop := ∀ c ∈ t, standsForItself c = true

instance (t : Text) : Decidable (Printable t) :=
  List.decidableBAll (standsForItself · = true) t

/-! ### Texts put together -/

theorem Printable.nil : Printable [] := by
  intro c hc
  cases hc

theorem Printable.cons {c : Char} {t : Text} (hc : standsForItself c = true) (ht : Printable t) :
    Printable (c :: t) :=
  List.forall_mem_cons.mpr ⟨hc, ht⟩

theorem Printable.append {s t : Text} (hs : Printable s) (ht : Printable t) :
    Printable (s ++ t) :=
  List.forall_mem_append.mpr ⟨hs, ht⟩

theorem Printable.sublist {s t : Text} (h : s.Sublist t) (ht : Printable t) : Printable s :=
  fun c hc => ht c (h.subset hc)

theorem printable_replicate (n : Nat) {c : Char} (hc : standsForItself c = true) :
    Printable (List.replicate n c) := by
  intro c' hc'
  rw [List.eq_of_mem_replicate hc']
  exact hc

theorem Printable.joinWith {sep : Text} (hsep : Printable sep) {ts : List Text}
    (hts : ∀ t ∈ ts, Printable t) : Printable (Text.joinWith sep ts) := by
  induction ts with
  | nil => exact Printable.nil
  | cons t ts ih =>
    have ht : Printable t := hts t List.mem_cons_self
    cases ts with
    | nil => rwa [Text.joinWith_singleton]
    | cons t' ts =>
      rw [Text.joinWith_cons_cons]
      exact ht.append (hsep.append (ih fun u hu => hts u (List.mem_cons_of_mem _ hu)))

theorem Printable.replaceAll {pattern replacement t : Text} (hreplacement : Printable replacement)
    (ht : Printable t) : Printable (Text.replaceAll pattern replacement t) := by
  have hfrom : ∀ skip, Printable (Text.replaceFrom pattern replacement skip t) := by
    induction t with
    | nil =>
      intro skip
      cases skip <;> exact Printable.nil
    | cons c cs ih =>
      obtain ⟨hc, hcs⟩ := List.forall_mem_cons.mp ht
      intro skip
      cases skip with
      | succ skip => exact ih hcs skip
      | zero =>
        rw [Text.replaceFrom]
        split
        · exact hreplacement.append (ih hcs _)
        · exact Printable.cons hc (ih hcs 0)
  unfold Text.replaceAll
  split
  · exact ht
  · exact hfrom 0

theorem printable_newLine (indent : Nat) : Printable (newLine indent) :=
  Printable.cons rfl (printable_replicate indent rfl)

/-! ### Numerals -/

theorem exists_digit_of_mem_toDigits {b n : Nat} (hb : 1 < b) {c : Char}
    (h : c ∈ Nat.toDigits b n) : ∃ d < b, c = Nat.digitChar d := by
  induction n using Nat.strongRecOn with
  | ind n ih =>
    rw [Nat.toDigits_eq_if hb] at h
    split at h
    · rename_i hn
      exact ⟨n, hn, List.mem_singleton.mp h⟩
    · rename_i hn
      rcases List.mem_append.mp h with h | h
      · exact ih (n / b) (Nat.div_lt_self (by omega) hb) h
      · exact ⟨n % b, Nat.mod_lt n (by omega), List.mem_singleton.mp h⟩

theorem printable_ofNat (n : Nat) : Printable (Text.ofNat n) := by
  intro c hc
  obtain ⟨d, hd, rfl⟩ := exists_digit_of_mem_toDigits (by omega) hc
  exact (by decide : ∀ d < 10, standsForItself (Nat.digitChar d) = true) d hd

theorem printable_ofInt (n : Int) : Printable (Text.ofInt n) := by
  cases n with
  | ofNat n => exact printable_ofNat n
  | negSucc n => exact Printable.cons rfl (printable_ofNat (n + 1))

theorem printable_capitalHex (digits n : Nat) : Printable (capitalHex digits n) := by
  intro c hc
  obtain ⟨c', hc', rfl⟩ := List.mem_map.mp (show c ∈ (Text.hex digits n).map Char.toUpper from hc)
  rcases List.mem_append.mp hc' with hc | hc
  · rw [List.eq_of_mem_replicate hc]
    decide
  · obtain ⟨d, hd, rfl⟩ := exists_digit_of_mem_toDigits (by omega) hc
    exact (by decide : ∀ d < 16, standsForItself (Nat.digitChar d).toUpper = true) d hd

theorem Printable.dropEndWhile {t : Text} (h : Printable t) (p : Char → Bool) :
    Printable (Text.dropEndWhile p t) := by
  intro c hc
  have hmem : c ∈ t.reverse.dropWhile p := List.mem_reverse.mp hc
  exact h c (List.mem_reverse.mp ((List.dropWhile_sublist p).subset hmem))

theorem printable_shortest (m : Nat) (e : Int) : Printable (Decimal.shortest m e).digits := by
  unfold Decimal.shortest
  split
  · decide
  · exact (printable_ofNat _).dropEndWhile _

theorem printable_layOut {d : Decimal.Digits} (h : Printable d.digits) :
    Printable (doubleStyle.layOut d) := by
  unfold Decimal.Style.layOut
  split
  · split
    · exact ((by decide : Printable ['0', '.']).append (printable_replicate _ rfl)).append h
    · have hfraction : Printable (d.digits.drop d.point.toNat) := h.sublist (List.drop_sublist _ _)
      refine ((((h.sublist (List.take_sublist _ _)).append (printable_replicate _ rfl)).append
        (by decide)).append ?_)
      split
      · decide
      · exact hfraction
  · refine (Printable.append (Printable.append ?_ ?_) ((printable_replicate _ rfl).append
      (printable_ofNat _)))
    · split
      · exact Printable.nil
      · rename_i c hc
        rw [hc] at h
        exact Printable.cons (h c List.mem_cons_self) (by decide)
      · rename_i c cs _ hcs
        rw [hcs] at h
        obtain ⟨hc, hcs⟩ := List.forall_mem_cons.mp h
        exact Printable.cons hc (Printable.cons rfl hcs)
    · split <;> decide

theorem printable_double (d : Double) : Printable (doubleStyle.write d) := by
  cases d with
  | finite negative m e =>
    refine Printable.append ?_ (printable_layOut (printable_shortest m e))
    cases negative <;> decide
  | infinite negative => cases negative <;> decide
  | nan => decide

/-! ### Texts -/

/-- A character in front of runs is a word of its own, starts the first word or makes none. -/
theorem word_mem_consTo {c : Char} {runs : List Run} {w : Text}
    (h : Run.word w ∈ Run.consTo c runs) :
    w = [c] ∨ (∃ w', w = c :: w' ∧ Run.word w' ∈ runs) ∨ Run.word w ∈ runs := by
  fun_cases Run.consTo c runs <;> grind [Run.consTo]

theorem printable_of_word_mem_ofText {t : Text} (ht : Printable t) :
    ∀ w, Run.word w ∈ Run.ofText t → Printable w := by
  induction t with
  | nil =>
    intro w hw
    cases hw
  | cons c cs ih =>
    obtain ⟨hc, hcs⟩ := List.forall_mem_cons.mp ht
    intro w hw
    rcases word_mem_consTo hw with rfl | ⟨w', rfl, hw'⟩ | hw
    · exact Printable.cons hc Printable.nil
    · exact Printable.cons hc (ih hcs w' hw')
    · exact ih hcs w hw

theorem printable_writeRuns (canFold : Bool) (indent : Nat) {runs : List Run}
    (h : ∀ w, Run.word w ∈ runs → Printable w) (isFirst : Bool) (column : Nat) :
    Printable (writeRuns canFold indent isFirst column runs) := by
  induction runs generalizing isFirst column with
  | nil =>
    unfold writeRuns
    exact Printable.nil
  | cons run runs ih =>
    have hrest := ih fun w hw => h w (List.mem_cons_of_mem _ hw)
    cases run with
    | word t =>
      rw [writeRuns]
      exact (h t List.mem_cons_self).append (hrest _ _)
    | lineEnds n =>
      rw [writeRuns]
      exact ((printable_replicate n rfl).append (printable_newLine indent)).append (hrest _ _)
    | spaces n =>
      rw [writeRuns]
      split
      · exact (printable_newLine indent).append (hrest _ _)
      · exact (printable_replicate n rfl).append (hrest _ _)

/-- Without an escape there are printable characters alone. -/
theorem standsForItself_of_escape? {c : Char} (h : escape? c = none) :
    standsForItself c = true := by
  have hrange : 0x20 ≤ c.toNat ∧ c.toNat ≤ 0x7E := by
    unfold escape? at h
    dsimp only at h
    split at h
    · cases h
    · split at h
      · rename_i hc
        simpa using hc
      · repeat' split at h
        all_goals cases h
  simp only [standsForItself, Bool.or_eq_true, Bool.and_eq_true, decide_eq_true_eq]
  exact .inr hrange

theorem printable_escape {c : Char} {t : Text} (h : escape? c = some t) : Printable t := by
  have hhex : ∀ letter digits n, standsForItself letter = true →
      Printable ('\\' :: letter :: capitalHex digits n) := fun letter digits n hletter =>
    Printable.cons rfl (Printable.cons hletter (printable_capitalHex digits n))
  unfold escape? at h
  dsimp only at h
  split at h
  · rename_i letter hletter
    obtain rfl := Option.some.inj h
    obtain ⟨front, back, hsplit, -⟩ := List.lookup_eq_some_iff.mp hletter
    have hall : ∀ e ∈ escapeLetters, standsForItself e.2 = true := by decide
    have hletter : standsForItself letter = true := hall (c.toNat, letter) (by simp [hsplit])
    exact Printable.cons rfl (Printable.cons hletter Printable.nil)
  · split at h
    · cases h
    · split at h
      · exact Option.some.inj h ▸ hhex 'x' 2 _ rfl
      · split at h
        · exact Option.some.inj h ▸ hhex 'u' 4 _ rfl
        · exact Option.some.inj h ▸ hhex 'U' 8 _ rfl

theorem printable_hiddenLineEnd (indent : Nat) (next : Option Char) :
    Printable (hiddenLineEnd indent next) := by
  refine (Printable.cons rfl (printable_newLine indent)).append ?_
  split <;> decide

theorem printable_writeEscaped (canFold : Bool) (indent : Nat) (t : Text)
    (isFirst afterEscape : Bool) (column : Nat) :
    Printable (writeEscaped canFold indent isFirst afterEscape column t) := by
  induction t generalizing isFirst afterEscape column with
  | nil => exact Printable.nil
  | cons c cs ih =>
    rw [writeEscaped]
    cases hescape : escape? c with
    | none =>
      have hc := standsForItself_of_escape? hescape
      dsimp only
      split
      · exact (printable_hiddenLineEnd indent _).append (Printable.cons hc (ih _ _ _))
      · exact Printable.cons hc (ih _ _ _)
    | some t =>
      have ht := printable_escape hescape
      dsimp only
      split
      · exact (ht.append (printable_hiddenLineEnd indent _)).append (ih _ _ _)
      · exact ht.append (ih _ _ _)

theorem printable_of_layout {t : Text} (h : Layout.of t ≠ .double) : Printable t := by
  intro c hc
  by_contra hnot
  refine h ?_
  unfold Layout.of
  rw [if_pos]
  rw [Bool.or_eq_true, Bool.not_eq_true']
  refine .inl (Bool.eq_false_iff.mpr fun hall => hnot (List.all_eq_true.mp hall c hc))

theorem printable_writeText (canFold : Bool) (indent column : Nat) (t : Text) :
    Printable (writeText canFold indent column t) := by
  unfold writeText
  split
  · rename_i hlayout
    have ht : Printable t := printable_of_layout (by rw [hlayout]; decide)
    exact printable_writeRuns _ _ (printable_of_word_mem_ofText ht) _ _
  · rename_i hlayout
    have ht : Printable t := printable_of_layout (by rw [hlayout]; decide)
    have hquoted : Printable (Text.replaceAll ['\''] ['\'', '\''] t) :=
      Printable.replaceAll (by decide) ht
    exact (Printable.cons rfl
      (printable_writeRuns _ _ (printable_of_word_mem_ofText hquoted) _ _)).append (by decide)
  · exact (Printable.cons rfl (printable_writeEscaped _ _ t _ _ _)).append (by decide)

theorem printable_writeScalar (canFold : Bool) (indent column : Nat) (s : Scalar) :
    Printable (writeScalar canFold indent column s) := by
  cases s with
  | null => exact (by decide : Printable "null")
  | boolean b =>
    cases b
    · exact (by decide : Printable "false")
    · exact (by decide : Printable "true")
  | integer n => exact printable_ofInt n
  | double d => exact printable_double d
  | text t => exact printable_writeText canFold indent column t

/-! ### Documents -/

theorem mem_of_mem_sorted {α : Type} {es : List (Scalar × α)} {e : Scalar × α}
    (h : e ∈ sorted es) : e ∈ es := by
  unfold sorted at h
  dsimp only at h
  split at h
  · exact List.mem_mergeSort.mp h
  · split at h
    · exact List.mem_mergeSort.mp h
    · exact h

theorem printable_joinSorted (indent : Nat) {es : List (Scalar × Text)}
    (h : ∀ e ∈ es, Printable e.2) :
    Printable (Text.joinWith (newLine indent) ((sorted es).map (·.2))) := by
  refine Printable.joinWith (printable_newLine indent) fun t ht => ?_
  obtain ⟨e, he, rfl⟩ := List.mem_map.mp ht
  exact h e (mem_of_mem_sorted he)

mutual

theorem printable_writeInline (indent : Nat) :
    (d : Data) → Printable (writeInline indent d)
  | .scalar s => printable_writeScalar true indent indent s
  | .list [] => (by decide : Printable "[]")
  | .map [] => (by decide : Printable "\x7b\x7d")
  | .list (d :: ds) =>
    Printable.joinWith (printable_newLine indent) (printable_writeItems indent (d :: ds))
  | .map (e :: es) => printable_joinSorted indent (printable_writeEntries indent (e :: es))

theorem printable_writeItems (indent : Nat) :
    (ds : List Data) → ∀ t ∈ writeItems indent ds, Printable t
  | [] => fun t ht => by cases ht
  | d :: ds => fun t ht => by
    rcases List.mem_cons.mp ht with rfl | ht
    · exact Printable.cons rfl (Printable.cons rfl (printable_writeInline (indent + indentStep) d))
    · exact printable_writeItems indent ds t ht

theorem printable_writeEntries (indent : Nat) :
    (es : List (Scalar × Data)) → ∀ e ∈ writeEntries indent es, Printable e.2
  | [] => fun e he => by cases he
  | (k, d) :: es => fun e he => by
    rcases List.mem_cons.mp he with rfl | he
    · dsimp only
      split
      · exact (printable_writeScalar _ _ _ k).append
          (Printable.cons rfl (printable_writeValue indent _ d))
      · exact ((((by decide : Printable ['?', ' ']).append (printable_writeScalar _ _ _ k)).append
          (printable_newLine indent)).append (by decide)).append
            (printable_writeInline (indent + indentStep) d)
    · exact printable_writeEntries indent es e he

theorem printable_writeValue (indent column : Nat) :
    (d : Data) → Printable (writeValue indent column d)
  | .scalar s => Printable.cons rfl (printable_writeScalar _ _ _ s)
  | .list [] => (by decide : Printable " []")
  | .map [] => (by decide : Printable " \x7b\x7d")
  | .list (d :: ds) => (printable_newLine indent).append
    (Printable.joinWith (printable_newLine indent) (printable_writeItems indent (d :: ds)))
  | .map (e :: es) => (printable_newLine _).append
    (printable_joinSorted _ (printable_writeEntries (indent + indentStep) (e :: es)))

end

/-- The text of a map is printable. -/
theorem printable_write (es : List (Scalar × Data)) : Printable (write es) :=
  (printable_writeInline 0 (.map es)).append (by decide)

/-- A map whose text is read as the map, but for the order of entries, is read back. -/
theorem readsBack_of_read {es : List (Scalar × Data)} {d : Data}
    (hspell : Data.haveSpellable es = true) (hread : read (write es) = .ok d)
    (hsame : d.Reordered (.map es)) : format.ReadsBack es := by
  have hlines : '\r' ∉ write es := fun hmem =>
    absurd (printable_write es _ hmem) (by decide)
  constructor
  all_goals rw [format_write hspell]
  · exact hlines
  · exact ⟨d, format_read hread, hsame⟩

end Yaml

end StyleImport
