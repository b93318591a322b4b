/-
Texts and the few operations on them that the rest of the library shares.

A text is a list of characters, so that every definition over paths, identifiers and file contents
is a recursion on a list and every fact about them is an induction.  String literals coerce to
texts; the outer layers convert whole strings once, on the way in and on the way out.

* `pieces`, `joinWith` — cutting at a character and putting the pieces back together;
* `cutLast` — the two sides of the last occurrence of a character;
* `replaceAll` — left-to-right replacement of a pattern;
* `ofNat`, `ofInt`, `hex` — numerals.
-/

namespace StyleImport

/-- A path, an identifier, the contents of a file, a line of output. -/
abbrev Text := List Char

instance : Coe String Text := ⟨String.toList⟩

namespace Text

/-- The pieces of a text between the occurrences of `sep`; a text without `sep` is one piece. -/
def pieces (sep : Char) : Text → List Text
  | [] => [[]]
  | c :: cs =>
    if c = sep then [] :: pieces sep cs
    else match pieces sep cs with
      | [] => [[c]]
      | p :: ps => (c :: p) :: ps

/-- The texts one after the other with `sep` between neighbours. -/
def joinWith (sep : Text) (ts : List Text) : Text := sep.intercalate ts

/-- What stands before and after the last occurrence of `sep`. -/
def cutLast (sep : Char) : Text → Option (Text × Text)
  | [] => none
  | c :: cs =>
    match cutLast sep cs with
    | some (before, after) => some (c :: before, after)
    | none => if c = sep then some ([], cs) else none

/-- What stands before and after the first occurrence of `sep`. -/
def cutFirst (sep : Char) : Text → Option (Text × Text)
  | [] => none
  | c :: cs =>
    if c = sep then some ([], cs)
    else (cutFirst sep cs).map fun (before, after) => (c :: before, after)

/-- Replacement with the first `skip` characters already consumed by a match. -/
def replaceFrom (pattern replacement : Text) : Nat → Text → Text
  | _, [] => []
  | skip + 1, _ :: cs => replaceFrom pattern replacement skip cs
  | 0, c :: cs =>
    if pattern.isPrefixOf (c :: cs) then
      replacement ++ replaceFrom pattern replacement (pattern.length - 1) cs
    else c :: replaceFrom pattern replacement 0 cs

/-- Every occurrence of a non-empty `pattern`, found from left to right, becomes `replacement`. -/
def replaceAll (pattern replacement t : Text) : Text :=
  if pattern = [] then t else replaceFrom pattern replacement 0 t

/-- Whether `pattern` occurs in the text. -/
def occursIn (pattern : Text) : Text → Bool
  | [] => pattern.isEmpty
  | c :: cs => pattern.isPrefixOf (c :: cs) || occursIn pattern cs

/-- The text without the characters satisfying `p` at its end. -/
def dropEndWhile (p : Char → Bool) (t : Text) : Text := (t.reverse.dropWhile p).reverse

/-- The decimal numeral of a natural number. -/
def ofNat (n : Nat) : Text := Nat.toDigits 10 n

/-- The decimal numeral of an integer. -/
def ofInt : Int → Text
  | .ofNat n => ofNat n
  | .negSucc n => '-' :: ofNat (n + 1)

/-- `t` with `fill` in front, as often as it takes to reach `width` characters. -/
def padLeft (width : Nat) (fill : Char) (t : Text) : Text :=
  List.replicate (width - t.length) fill ++ t

/-- `t` with `fill` behind, as often as it takes to reach `width` characters. -/
def padRight (width : Nat) (fill : Char) (t : Text) : Text :=
  t ++ List.replicate (width - t.length) fill

/-- The hexadecimal numeral of `n` in small letters, at least `width` digits wide. -/
def hex (width n : Nat) : Text := padLeft width '0' (Nat.toDigits 16 n)

/-- The text with its ASCII letters made small. -/
def toLower (t : Text) : Text := t.map Char.toLower

/-- The text with its ASCII letters made capital. -/
def toUpper (t : Text) : Text := t.map Char.toUpper

/-- The value of a decimal numeral; characters that are no digits count as zero. -/
def decimalValue (t : Text) : Nat :=
  t.foldl (fun n c => 10 * n + (if c.isDigit then c.toNat - '0'.toNat else 0)) 0

/-- `before` and then `t`, if there is a `t`. -/
def withLead (before : Text) : Option Text → Text
  | some t => before ++ t
  | none => []

/-- The order of texts by the code points of their characters. -/
def le : Text → Text → Bool
  | [], _ => true
  | _ :: _, [] => false
  | a :: as, b :: bs => a.toNat < b.toNat || (a = b && le as bs)

theorem joinWith_singleton {sep : Text} (t : Text) : joinWith sep [t] = t :=
  List.intercalate_singleton

theorem joinWith_cons_cons (sep t u : Text) (ts : List Text) :
    joinWith sep (t :: u :: ts) = t ++ (sep ++ joinWith sep (u :: ts)) :=
  List.intercalate_cons_cons.trans (List.append_assoc ..)

theorem joinWith_pieces (sep : Char) (t : Text) : joinWith [sep] (pieces sep t) = t := by
  induction t with
  | nil => rfl
  | cons c cs ih =>
    by_cases h : c = sep
    · subst h
      cases hp : pieces c cs with
      | nil => cases cs <;> simp_all [pieces, joinWith, List.intercalate]
      | cons p ps =>
        rw [hp] at ih
        simp [pieces, hp, joinWith, List.intercalate] at ih ⊢
        exact ih
    · cases hp : pieces sep cs with
      | nil =>
        rw [hp] at ih
        simp [pieces, hp, h, joinWith, List.intercalate] at ih ⊢
        exact ih
      | cons p ps =>
        rw [hp] at ih
        cases ps <;> simp [pieces, hp, h, joinWith, List.intercalate] at ih ⊢ <;> exact ih

theorem not_mem_of_mem_pieces {sep : Char} {t p : Text} (h : p ∈ pieces sep t) : sep ∉ p := by
  induction t generalizing p with
  | nil =>
    rw [pieces, List.mem_singleton] at h
    simp [h]
  | cons c cs ih =>
    rw [pieces] at h
    split at h
    · rcases List.mem_cons.mp h with rfl | h
      · simp
      · exact ih h
    · rename_i hc
      split at h
      · rw [List.mem_singleton] at h
        simpa [h] using Ne.symm hc
      · rename_i q qs hq
        rcases List.mem_cons.mp h with rfl | h
        · have hq' : sep ∉ q := ih (hq ▸ List.mem_cons_self)
          simpa [hq'] using Ne.symm hc
        · exact ih (hq ▸ List.mem_cons_of_mem _ h)

theorem pieces_append_cons {sep : Char} {p : Text} (hp : sep ∉ p) (t : Text) :
    pieces sep (p ++ sep :: t) = p :: pieces sep t := by
  induction p with
  | nil => simp [pieces]
  | cons c cs ih =>
    rw [List.mem_cons, not_or] at hp
    simp [pieces, Ne.symm hp.1, ih hp.2]

theorem pieces_of_not_mem {sep : Char} {p : Text} (hp : sep ∉ p) : pieces sep p = [p] := by
  induction p with
  | nil => rfl
  | cons c cs ih =>
    rw [List.mem_cons, not_or] at hp
    simp [pieces, Ne.symm hp.1, ih hp.2]

/-- Texts put together with a character that none of them holds are found again by cutting there. -/
theorem pieces_joinWith {sep : Char} {ps : List Text} (hne : ps ≠ []) (hps : ∀ p ∈ ps, sep ∉ p) :
    pieces sep (joinWith [sep] ps) = ps := by
  induction ps with
  | nil => exact absurd rfl hne
  | cons p ps ih =>
    have hp : sep ∉ p := hps p List.mem_cons_self
    cases ps with
    | nil => rw [joinWith_singleton, pieces_of_not_mem hp]
    | cons q qs =>
      have hrest := ih (List.cons_ne_nil q qs) fun r hr => hps r (List.mem_cons_of_mem _ hr)
      rw [joinWith_cons_cons, List.singleton_append, pieces_append_cons hp, hrest]

/-- Cutting at the last occurrence loses only that occurrence. -/
theorem eq_of_cutLast {sep : Char} {t before after : Text}
    (h : cutLast sep t = some (before, after)) : t = before ++ sep :: after := by
  induction t generalizing before after with
  | nil => simp [cutLast] at h
  | cons c cs ih =>
    cases hc : cutLast sep cs with
    | some r =>
      obtain ⟨b, a⟩ := r
      simp only [cutLast, hc, Option.some.injEq, Prod.mk.injEq] at h
      rw [ih hc, ← h.1, ← h.2, List.cons_append]
    | none =>
      by_cases hs : c = sep
      · simp only [cutLast, hc, hs, if_true, Option.some.injEq, Prod.mk.injEq] at h
        simp [← h.1, ← h.2, hs]
      · simp [cutLast, hc, hs] at h

end Text

end StyleImport
