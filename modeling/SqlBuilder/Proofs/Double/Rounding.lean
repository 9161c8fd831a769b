import Mathlib.Algebra.Order.Field.Power
import Mathlib.Tactic.Linarith
import Mathlib.Tactic.Positivity
import Mathlib.Tactic.Ring
import SqlBuilder.Double.Basic

/-!
# How far rounding goes

A quotient below a power of two is rounded to at most that power (`nearest_le`), and so a quotient
below `2 ^ 1023` to a finite number (`limit_lt_infinite`). A quotient that is at least a power of
two is rounded to at least that power (`le_nearest`). The other way round, `ratio_lt` and `le_ratio`
tell what a pattern stands for from where it is among those of the powers of two.

`limit k` is the pattern of `2 ^ k`. The estimates are about rationals, where a power of two may
have a negative exponent; `zpow_two_eq` leads back to the naturals of the definitions.
-/

namespace SqlBuilder.Double

/-- The magnitude of `2 ^ k`. -/
def limit (k : Nat) : Nat := (k + 1023) * Nat.pow 2 52

variable {num den m k : Nat} {negative : Bool}

theorem zpow_two_eq (e : Int) :
    (2 : ℚ) ^ e = (Nat.pow 2 e.toNat : Nat) / (Nat.pow 2 (-e).toNat : Nat) := by
  obtain ⟨n, rfl | rfl⟩ := e.eq_nat_or_neg
  · simp
  · simp

theorem two_pow_cast_pos (n : Nat) : (0 : ℚ) < (Nat.pow 2 n : Nat) :=
  Nat.cast_pos.mpr (Nat.two_pow_pos n)

theorem cast_lt_zpow_log2 (n : Nat) : (n : ℚ) < 2 ^ (n.log2 + 1 : Int) := by
  exact_mod_cast (Nat.lt_log2_self : n < 2 ^ (n.log2 + 1))

theorem zpow_log2_le_cast {n : Nat} (hn : 0 < n) : (2 : ℚ) ^ (n.log2 : Int) ≤ n := by
  exact_mod_cast Nat.log2_self_le hn.ne'

/-- **`floorLog2` is exact**: the quotient is between this power of two and the next. -/
theorem floorLog2_spec (hnum : 0 < num) (hden : 0 < den) :
    (den : ℚ) * 2 ^ floorLog2 num den ≤ num ∧ (num : ℚ) < den * 2 ^ (floorLog2 num den + 1) := by
  have hguess : den * Nat.pow 2 ((num.log2 : Int) - den.log2).toNat ≤
      num * Nat.pow 2 (-((num.log2 : Int) - den.log2)).toNat ↔
      (den : ℚ) * 2 ^ ((num.log2 : Int) - den.log2) ≤ num := by
    rw [zpow_two_eq, ← mul_div_assoc, div_le_iff₀ (two_pow_cast_pos _)]
    exact_mod_cast Iff.rfl
  have hbelow : (2 : ℚ) ^ (den.log2 : Int) ≤ den := zpow_log2_le_cast hden
  have habove : (den : ℚ) < 2 ^ (den.log2 + 1 : Int) := cast_lt_zpow_log2 den
  unfold floorLog2
  dsimp only
  split
  · rename_i h
    refine ⟨hguess.mp h, ?_⟩
    calc (num : ℚ) < 2 ^ (num.log2 + 1 : Int) := cast_lt_zpow_log2 num
      _ = 2 ^ (den.log2 : Int) * 2 ^ ((num.log2 : Int) - den.log2 + 1) := by
        rw [← zpow_add₀ two_ne_zero]
        congr 1
        ring
      _ ≤ den * 2 ^ ((num.log2 : Int) - den.log2 + 1) := by gcongr
  · rename_i h
    refine ⟨?_, ?_⟩
    · calc (den : ℚ) * 2 ^ ((num.log2 : Int) - den.log2 - 1)
          ≤ 2 ^ (den.log2 + 1 : Int) * 2 ^ ((num.log2 : Int) - den.log2 - 1) := by gcongr
        _ = 2 ^ (num.log2 : Int) := by
          rw [← zpow_add₀ two_ne_zero]
          congr 1
          ring
        _ ≤ num := zpow_log2_le_cast hnum
    · rw [sub_add_cancel]
      exact lt_of_not_ge fun hle => h (hguess.mpr hle)

theorem floorLog2_lt (hnum : 0 < num) (h : num < den * Nat.pow 2 k) : floorLog2 num den < k := by
  have hden : 0 < den := Nat.pos_of_mul_pos_right (Nat.zero_lt_of_lt h)
  have hlt : (den : ℚ) * 2 ^ floorLog2 num den < den * 2 ^ (k : Int) := by
    refine (floorLog2_spec hnum hden).1.trans_lt ?_
    rw [zpow_natCast]
    exact_mod_cast h
  exact (zpow_lt_zpow_iff_right₀ one_lt_two).mp (lt_of_mul_lt_mul_left hlt (Nat.cast_nonneg _))

theorem le_floorLog2 (hden : 0 < den) (h : den * Nat.pow 2 k ≤ num) : k ≤ floorLog2 num den := by
  have hnum : 0 < num := (Nat.mul_pos hden (Nat.two_pow_pos k)).trans_le h
  have hlt : (den : ℚ) * 2 ^ (k : Int) < den * 2 ^ (floorLog2 num den + 1) := by
    refine lt_of_le_of_lt ?_ (floorLog2_spec hnum hden).2
    rw [zpow_natCast]
    exact_mod_cast h
  have := (zpow_lt_zpow_iff_right₀ one_lt_two).mp (lt_of_mul_lt_mul_left hlt (Nat.cast_nonneg _))
  omega

theorem le_roundQuotient (hden : 0 < den) (h : den * m ≤ num) : m ≤ roundQuotient num den := by
  have hfloor : m ≤ num / den := (Nat.le_div_iff_mul_le hden).mpr (by rwa [Nat.mul_comm])
  unfold roundQuotient
  dsimp only
  split
  · exact hfloor
  · exact hfloor.trans (Nat.le_succ _)

theorem roundQuotient_le (h : num < den * m) : roundQuotient num den ≤ m := by
  have hfloor : num / den < m := Nat.div_lt_of_lt_mul h
  unfold roundQuotient
  dsimp only
  split
  · exact hfloor.le
  · exact hfloor

/-- **A quotient below a power of two is rounded to at most that power.** -/
theorem nearest_le (h : num < den * Nat.pow 2 k) : nearest num den ≤ limit k := by
  by_cases hnum : num = 0
  · rw [nearest, if_pos hnum]
    exact Nat.zero_le _
  have hden : 0 < den := Nat.pos_of_mul_pos_right (Nat.zero_lt_of_lt h)
  have hlog := floorLog2_lt (Nat.pos_of_ne_zero hnum) h
  rw [nearest, if_neg hnum]
  dsimp only
  generalize hscale : max (floorLog2 num den - 52) (-1074) = scale
  -- the weight of the last bit leaves no more than 53 bits
  have hbits : num * Nat.pow 2 (-scale).toNat < den * Nat.pow 2 scale.toNat * Nat.pow 2 53 := by
    have hlt : (num : ℚ) < den * (2 ^ scale * 2 ^ (53 : Int)) := by
      rw [← zpow_add₀ two_ne_zero]
      refine (floorLog2_spec (Nat.pos_of_ne_zero hnum) hden).2.trans_le ?_
      exact mul_le_mul_of_nonneg_left (zpow_le_zpow_right₀ one_le_two (by omega))
        (Nat.cast_nonneg _)
    rw [zpow_two_eq, div_mul_eq_mul_div, ← mul_div_assoc, lt_div_iff₀ (two_pow_cast_pos _)] at hlt
    rw [Nat.mul_assoc]
    exact_mod_cast hlt
  have hround := roundQuotient_le hbits
  calc min ((scale + 1074).toNat * Nat.pow 2 52 + _) infinite
      ≤ (scale + 1074).toNat * Nat.pow 2 52 + Nat.pow 2 53 :=
        (Nat.min_le_left _ _).trans (Nat.add_le_add_left hround _)
    _ = ((scale + 1074).toNat + 2) * Nat.pow 2 52 := (Nat.add_mul _ 2 _).symm
    _ ≤ limit k := Nat.mul_le_mul_right _ (by omega)

/-- **A quotient that is at least a power of two is rounded to at least that power.** -/
theorem le_nearest (hden : 0 < den) (hk : k ≤ 1024) (h : den * Nat.pow 2 k ≤ num) :
    limit k ≤ nearest num den := by
  have hnum : 0 < num := (Nat.mul_pos hden (Nat.two_pow_pos k)).trans_le h
  have hlog := le_floorLog2 hden h
  rw [nearest, if_neg hnum.ne']
  dsimp only
  have hscale : max (floorLog2 num den - 52) (-1074) = floorLog2 num den - 52 := by omega
  rw [hscale]
  generalize hlast : floorLog2 num den - 52 = scale
  have hbits : den * Nat.pow 2 scale.toNat * Nat.pow 2 52 ≤ num * Nat.pow 2 (-scale).toNat := by
    have hle : (den : ℚ) * (2 ^ scale * 2 ^ (52 : Int)) ≤ num := by
      rw [← zpow_add₀ two_ne_zero, ← hlast, sub_add_cancel]
      exact (floorLog2_spec hnum hden).1
    rw [zpow_two_eq, div_mul_eq_mul_div, ← mul_div_assoc, div_le_iff₀ (two_pow_cast_pos _)] at hle
    rw [Nat.mul_assoc]
    exact_mod_cast hle
  have hround := le_roundQuotient (Nat.mul_pos hden (Nat.two_pow_pos _)) hbits
  refine Nat.le_min.mpr ⟨?_, Nat.mul_le_mul_right _ (show k + 1023 ≤ 2047 by omega)⟩
  calc limit k ≤ ((scale + 1074).toNat + 1) * Nat.pow 2 52 := Nat.mul_le_mul_right _ (by omega)
    _ = (scale + 1074).toNat * Nat.pow 2 52 + Nat.pow 2 52 := Nat.succ_mul _ _
    _ ≤ _ := Nat.add_le_add_left hround _

theorem limit_lt_infinite (h : k ≤ 1023) : limit k < infinite :=
  Nat.mul_lt_mul_of_pos_right (by omega) (by decide)

/-- **A pattern up to that of a power of two stands for less than the next power.** -/
theorem ratio_lt (h : m ≤ limit k) : (ratio m).1 < (ratio m).2 * Nat.pow 2 (k + 1) := by
  have hsignificand : significand m < Nat.pow 2 53 := by
    have hpow : Nat.pow 2 53 = Nat.pow 2 52 + Nat.pow 2 52 := rfl
    have hmod : m % Nat.pow 2 52 < Nat.pow 2 52 := Nat.mod_lt m (Nat.two_pow_pos 52)
    unfold significand
    split <;> omega
  have hexponent : exponent m ≤ (k : Int) - 52 := by
    have := Nat.div_le_of_le_mul (show m ≤ Nat.pow 2 52 * (k + 1023) by rwa [Nat.mul_comm])
    unfold exponent
    omega
  have hlt : (significand m : ℚ) * 2 ^ exponent m < 2 ^ ((k : Int) + 1) := by
    calc (significand m : ℚ) * 2 ^ exponent m < 2 ^ (53 : Int) * 2 ^ exponent m := by
          gcongr
          exact_mod_cast hsignificand
      _ ≤ 2 ^ (53 : Int) * 2 ^ ((k : Int) - 52) := by
          gcongr
          exact one_le_two
      _ = 2 ^ ((k : Int) + 1) := by
          rw [← zpow_add₀ two_ne_zero]
          congr 1
          ring
  rw [zpow_two_eq, ← mul_div_assoc, div_lt_iff₀ (two_pow_cast_pos _), mul_comm (2 ^ _)] at hlt
  exact_mod_cast hlt

/-- A pattern from that of a power of two on stands for at least that power. -/
theorem le_ratio (h : limit k ≤ m) : (ratio m).2 * Nat.pow 2 k ≤ (ratio m).1 := by
  have hnormal : Nat.pow 2 52 ≤ m := le_trans (Nat.le_mul_of_pos_left _ (by omega)) h
  have hsignificand : Nat.pow 2 52 ≤ significand m := by
    rw [significand, if_neg hnormal.not_gt]
    exact Nat.le_add_right _ _
  have hexponent : (k : Int) - 52 ≤ exponent m := by
    have hfield : k + 1023 ≤ m / Nat.pow 2 52 :=
      (Nat.le_div_iff_mul_le (Nat.two_pow_pos 52)).mpr h
    unfold exponent
    omega
  have hle : (2 : ℚ) ^ (k : Int) ≤ significand m * 2 ^ exponent m := by
    calc (2 : ℚ) ^ (k : Int) = 2 ^ (52 : Int) * 2 ^ ((k : Int) - 52) := by
          rw [← zpow_add₀ two_ne_zero]
          congr 1
          ring
      _ ≤ 2 ^ (52 : Int) * 2 ^ exponent m := by
          gcongr
          exact one_le_two
      _ ≤ significand m * 2 ^ exponent m := by
          gcongr
          exact_mod_cast hsignificand
  rw [zpow_two_eq (exponent m), ← mul_div_assoc, le_div_iff₀ (two_pow_cast_pos _),
    mul_comm (2 ^ _), zpow_natCast] at hle
  exact_mod_cast hle

theorem ratio_den_pos (m : Nat) : 0 < (ratio m).2 := Nat.two_pow_pos _

theorem nearest_lt_infinite (h : nearest num den ≠ infinite) : nearest num den < infinite := by
  refine Nat.lt_of_le_of_ne ?_ h
  unfold nearest
  split
  · exact Nat.zero_le _
  · exact Nat.min_le_right _ _

/-- Dividing by something that is at least one goes up by no more than one power. -/
theorem div_le {x y : Nat} (hx : x ≤ limit k) (hy : (ratio y).2 ≤ (ratio y).1) :
    div x y ≤ limit (k + 1) := by
  refine nearest_le ?_
  calc (ratio x).1 * (ratio y).2 < (ratio x).2 * Nat.pow 2 (k + 1) * (ratio y).2 :=
        Nat.mul_lt_mul_of_pos_right (ratio_lt hx) (ratio_den_pos y)
    _ ≤ (ratio x).2 * Nat.pow 2 (k + 1) * (ratio y).1 := Nat.mul_le_mul_left _ hy
    _ = (ratio x).2 * (ratio y).1 * Nat.pow 2 (k + 1) := Nat.mul_right_comm _ _ _

theorem magnitude_ofMagnitude (h : m < Nat.pow 2 63) : (ofMagnitude negative m).magnitude = m := by
  have hpow : Nat.pow 2 64 = Nat.pow 2 63 + Nat.pow 2 63 := rfl
  have hbits : (ofMagnitude negative m).bits.toNat =
      if negative then Nat.pow 2 63 + m else m := by
    refine Nat.mod_eq_of_lt (a := if negative then Nat.pow 2 63 + m else m) ?_
    show _ < Nat.pow 2 64
    split <;> omega
  rw [magnitude, hbits]
  split
  · rw [Nat.add_mod_left, Nat.mod_eq_of_lt h]
  · exact Nat.mod_eq_of_lt h

theorem isFinite_ofMagnitude (h : m < infinite) : (ofMagnitude negative m).isFinite = true := by
  rw [isFinite, magnitude_ofMagnitude (h.trans (by decide))]
  exact decide_eq_true h

/-- A positive natural number stays at least one. -/
theorem one_le_ratio_ofNat {n : Nat} (h : 0 < n) : (ratio (ofNat n)).2 ≤ (ratio (ofNat n)).1 := by
  have hone : limit 0 ≤ ofNat n := le_nearest Nat.one_pos (Nat.zero_le _) h
  simpa using le_ratio hone

theorem ofNat_le {n : Nat} (h : n < Nat.pow 2 k) : ofNat n ≤ limit k :=
  nearest_le (by rwa [Nat.one_mul])

end SqlBuilder.Double
