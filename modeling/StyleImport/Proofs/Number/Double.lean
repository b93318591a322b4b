/-
Which integers are beyond the doubles.

The exponent of the nearest double follows from the binary logarithm.  Only an integer between
`2 ^ 1023` and `2 ^ 1024` needs a look at its mantissa, which may be rounded up to the next power.

* `Double.ofInt?_eq_none` — the integers without a nearest double are those from
  `2 ^ 1024 - 2 ^ 970` on, of either sign.
-/
import Mathlib.Tactic.Linarith
import StyleImport.Number.Double

namespace StyleImport

theorem twoTo_eq {e : Int} {k : Nat} (h : e.toNat = k) : twoTo e = 2 ^ k := by
  rw [twoTo, h, Nat.pow_eq]

theorem twoTo_pos (e : Int) : 0 < twoTo e := Nat.two_pow_pos e.toNat

theorem twoTo_of_nonpos {e : Int} (he : e ≤ 0) : twoTo e = 1 := by
  rw [twoTo_eq (Int.toNat_of_nonpos he), pow_zero]

namespace Double

/-- The least magnitude beyond the doubles: halfway from the greatest double to the power of two
that is next to it. -/
def beyond : Nat := 2 ^ 1024 - 2 ^ 970

/-- A quotient below an even number is rounded up to it from the middle on. -/
theorem roundHalfEven_eq_iff {c num den : Nat} (hc : c % 2 = 0) (hlt : num < c * den) :
    roundHalfEven num den = c ↔ 2 * c * den ≤ 2 * num + den := by
  have hden : 0 < den := Nat.pos_of_mul_pos_left (Nat.zero_lt_of_lt hlt)
  have hq : num / den < c := (Nat.div_lt_iff_lt_mul hden).mpr hlt
  have hr : num % den < den := Nat.mod_lt num hden
  have hnum : den * (num / den) + num % den = num := Nat.div_add_mod num den
  unfold roundHalfEven
  generalize num / den = q at *
  generalize num % den = r at *
  rcases Nat.lt_or_ge (q + 1) c with hfar | hnear
  · -- The rounded quotient is too small, and so is the quotient.
    have hbelow : den * (q + 2) ≤ den * c := Nat.mul_le_mul_left den hfar
    refine iff_of_false ?_ ?_
    · dsimp only
      split_ifs <;> omega
    · rw [← hnum, mul_assoc, mul_comm c]
      rw [mul_add] at hbelow
      omega
  · obtain rfl : c = q + 1 := by omega
    rw [← hnum, mul_assoc, add_mul, mul_comm q, one_mul]
    dsimp only
    split_ifs <;> omega

/-- The first guess at the exponent of the double nearest to an integer is one too small. -/
theorem mantissa_of_guess {num : Nat} (hnum : num ≠ 0) :
    ¬ (scale num 1 ((num.log2 : Int) - 53)).1 / (scale num 1 ((num.log2 : Int) - 53)).2
      < twoTo 53 := by
  have hlog : 2 ^ num.log2 ≤ num := Nat.log2_self_le hnum
  show ¬ num * twoTo (-(num.log2 - 53 : Int)) / (1 * twoTo (num.log2 - 53)) < 2 ^ 53
  rw [one_mul, not_lt]
  rcases Nat.le_total 53 num.log2 with hle | hle
  · rw [twoTo_of_nonpos (by omega), mul_one, Nat.le_div_iff_mul_le (twoTo_pos _)]
    have hexp : 53 + ((num.log2 : Int) - 53).toNat = num.log2 := by omega
    calc 2 ^ 53 * twoTo (num.log2 - 53) = 2 ^ num.log2 := by
          rw [twoTo_eq rfl, ← pow_add, hexp]
      _ ≤ num := hlog
  · rw [twoTo_of_nonpos (e := (num.log2 : Int) - 53) (by omega), Nat.div_one]
    have hexp : num.log2 + (-((num.log2 : Int) - 53)).toNat = 53 := by omega
    calc 2 ^ 53 = 2 ^ num.log2 * twoTo (-(num.log2 - 53)) := by
          rw [twoTo_eq rfl, ← pow_add, hexp]
      _ ≤ num * twoTo (-(num.log2 - 53)) := Nat.mul_le_mul_right _ hlog

theorem ofRatio_one {negative : Bool} {num : Nat} {e : Int} (hnum : num ≠ 0)
    (he : (num.log2 : Int) = e + 52) :
    ofRatio negative num 1 =
      if roundHalfEven (num * twoTo (-e)) (twoTo e) = twoTo 53 then
        if greatestExponent < e + 1 then .infinite negative else .finite negative (twoTo 52) (e + 1)
      else if greatestExponent < e then .infinite negative
      else .finite negative (roundHalfEven (num * twoTo (-e)) (twoTo e)) e := by
  have hone : Nat.log2 1 = 0 := by decide
  have hexp : max leastExponent ((num.log2 : Int) - 53 + 1) = e := by
    unfold leastExponent
    omega
  unfold ofRatio
  simp only [hnum, hone, Nat.cast_zero, sub_zero, decide_false, Nat.one_ne_zero, Bool.or_self,
    Bool.false_eq_true, if_false, if_neg (mantissa_of_guess hnum), hexp]
  simp only [scale, one_mul]
  split_ifs <;> simp_all

theorem beyond_eq : beyond = (2 ^ 54 - 1) * 2 ^ 970 := by
  rw [beyond, Nat.sub_mul, one_mul, ← pow_add]

theorem pow_le_beyond : 2 ^ 1023 ≤ beyond := by
  have hsplit : (2 : Nat) ^ 1023 = 2 ^ 53 * 2 ^ 970 := by rw [← pow_add]
  rw [hsplit, beyond_eq]
  exact Nat.mul_le_mul_right _ (by decide)

theorem beyond_le_pow : beyond ≤ 2 ^ 1024 := Nat.sub_le _ _

/-- Under the greatest exponent the mantissa is rounded up to a power of two from the middle on. -/
theorem roundHalfEven_eq_carry {num : Nat} (hlt : num < 2 ^ 1024) :
    roundHalfEven num (twoTo 971) = twoTo 53 ↔ beyond ≤ num := by
  have hsplit : (2 : Nat) ^ 1024 = 2 ^ 53 * 2 ^ 971 := by rw [← pow_add]
  have hdouble : (2 : Nat) ^ 971 = 2 * 2 ^ 970 := by rw [← pow_succ']
  rw [twoTo_eq (show (971 : Int).toNat = 971 from rfl),
    twoTo_eq (show (53 : Int).toNat = 53 from rfl),
    roundHalfEven_eq_iff (by decide) (hsplit ▸ hlt), beyond_eq, hdouble]
  generalize (2 : Nat) ^ 970 = unit
  omega

/-- An integer has no nearest double if and only if its magnitude is beyond the doubles. -/
theorem ofInt?_eq_none {n : Int} : ofInt? n = none ↔ beyond ≤ n.natAbs := by
  have hinfinite : ofInt? n = none ↔ ∃ s, ofRatio (n < 0) n.natAbs 1 = .infinite s := by
    unfold ofInt?
    split <;> simp_all
  rw [hinfinite]
  generalize n.natAbs = num
  by_cases hnum : num = 0
  · subst hnum
    have hpos : 0 < beyond := by
      rw [beyond_eq]
      positivity
    refine iff_of_false ?_ (not_le.mpr hpos)
    simp [ofRatio, zero]
  have hlog : 2 ^ num.log2 ≤ num := Nat.log2_self_le hnum
  have hlog' : num < 2 ^ (num.log2 + 1) := Nat.lt_log2_self
  rcases Nat.lt_trichotomy num.log2 1023 with hlt | heq | hgt
  · have hsmall : num < 2 ^ 1023 := hlog'.trans_le (pow_le_pow_right₀ (by decide) hlt)
    have hexp : ¬ greatestExponent < (num.log2 : Int) - 52 + 1 := by
      unfold greatestExponent
      omega
    refine iff_of_false ?_ (not_le.mpr (hsmall.trans_le pow_le_beyond))
    rw [ofRatio_one (e := num.log2 - 52) hnum (by omega), if_neg hexp,
      if_neg (show ¬ greatestExponent < (num.log2 : Int) - 52 by omega)]
    split_ifs <;> simp
  · -- The exponent is the greatest one, so everything hangs on the carry.
    rw [show num.log2 + 1 = 1024 by omega] at hlog'
    rw [ofRatio_one (e := 971) hnum (by omega), if_pos (show greatestExponent < 971 + 1 by decide),
      if_neg (show ¬ greatestExponent < 971 by decide), twoTo_of_nonpos (by omega), mul_one,
      ← roundHalfEven_eq_carry hlog']
    split_ifs with hcarry <;> simp [hcarry]
  · have hlarge : 2 ^ 1024 ≤ num :=
      (pow_le_pow_right₀ (by decide) (show 1024 ≤ num.log2 from hgt)).trans hlog
    have hexp : greatestExponent < (num.log2 : Int) - 52 := by
      unfold greatestExponent
      omega
    refine iff_of_true ?_ (le_trans beyond_le_pow hlarge)
    rw [ofRatio_one (e := num.log2 - 52) hnum (by omega), if_pos hexp,
      if_pos (show greatestExponent < (num.log2 : Int) - 52 + 1 by omega)]
    split_ifs <;> simp

end Double

end StyleImport
