import Callboard.Number.Binary64
import Mathlib.Algebra.Order.Field.Power
import Mathlib.Data.Rat.Cast.Order
import Mathlib.Tactic.FieldSimp
import Mathlib.Tactic.NormNum
import Mathlib.Tactic.Positivity
import Mathlib.Tactic.Ring

/-!
# Doubles that need no rounding

A decimal that is exactly a magnitude is read as that magnitude. The significand has
53 bits at one exponent only, so the exponent that is chosen is the one of the rank,
and nothing is left to round.
-/

set_option autoImplicit false

namespace Callboard.Binary64

def magnitude (rank : Nat) : ℚ := significand rank * (2 : ℚ) ^ exponent rank

theorem scale_value (base n d : Nat) (e : Int) :
    ((scale base n d e).1 : ℚ) / (scale base n d e).2 = (n : ℚ) / d * (base : ℚ) ^ (-e) := by
  cases e with
  | ofNat k =>
    rw [Int.ofNat_eq_natCast, zpow_neg, zpow_natCast]
    simp only [scale, Nat.pow_eq, Nat.cast_mul, Nat.cast_pow]
    rw [← div_div, div_eq_mul_inv]
  | negSucc k =>
    rw [Int.neg_negSucc, zpow_natCast]
    simp only [scale, Nat.pow_eq, Nat.cast_mul, Nat.cast_pow]
    ring

theorem scale_ne_zero {base : Nat} (hb : base ≠ 0) (n : Nat) {d : Nat} (hd : d ≠ 0) (e : Int) :
    (scale base n d e).2 ≠ 0 := by
  cases e with
  | ofNat k => exact Nat.mul_ne_zero hd (pow_ne_zero k hb)
  | negSucc k => exact hd

theorem log2_bounds {n : Nat} (hn : n ≠ 0) :
    (2 : ℚ) ^ (n.log2 : ℤ) ≤ n ∧ (n : ℚ) < (2 : ℚ) ^ ((n.log2 : ℤ) + 1) := by
  constructor
  · rw [zpow_natCast]
    exact_mod_cast Nat.log2_self_le hn
  · have h : n < 2 ^ (n.log2 + 1) := Nat.lt_log2_self
    have hcast : (n : ℚ) < (2 : ℚ) ^ (n.log2 + 1) := by exact_mod_cast h
    exact_mod_cast hcast

/-- The difference of the logarithms is the exponent of a quotient, or one more. -/
theorem quotient_bounds {n d : Nat} (hn : n ≠ 0) (hd : d ≠ 0) :
    (2 : ℚ) ^ ((n.log2 : ℤ) - d.log2 - 1) < (n : ℚ) / d ∧
      (n : ℚ) / d < (2 : ℚ) ^ ((n.log2 : ℤ) - d.log2 + 1) := by
  obtain ⟨hn1, hn2⟩ := log2_bounds hn
  obtain ⟨hd1, hd2⟩ := log2_bounds hd
  have hdpos : (0 : ℚ) < d := by exact_mod_cast Nat.pos_of_ne_zero hd
  have hpos : ∀ e : ℤ, (0 : ℚ) < (2 : ℚ) ^ e := fun e => zpow_pos (by norm_num) e
  constructor
  · rw [lt_div_iff₀ hdpos]
    calc (2 : ℚ) ^ ((n.log2 : ℤ) - d.log2 - 1) * d
        < (2 : ℚ) ^ ((n.log2 : ℤ) - d.log2 - 1) * (2 : ℚ) ^ ((d.log2 : ℤ) + 1) :=
          mul_lt_mul_of_pos_left hd2 (hpos _)
      _ = (2 : ℚ) ^ (n.log2 : ℤ) := by
          rw [← zpow_add₀ (by norm_num)]
          congr 1
          omega
      _ ≤ n := hn1
  · rw [div_lt_iff₀ hdpos]
    calc (n : ℚ) < (2 : ℚ) ^ ((n.log2 : ℤ) + 1) := hn2
      _ = (2 : ℚ) ^ ((n.log2 : ℤ) - d.log2 + 1) * (2 : ℚ) ^ (d.log2 : ℤ) := by
          rw [← zpow_add₀ (by norm_num)]
          congr 1
          omega
      _ ≤ (2 : ℚ) ^ ((n.log2 : ℤ) - d.log2 + 1) * d := mul_le_mul_of_nonneg_left hd1 (hpos _).le

/-- At this exponent the significand of a magnitude has 53 bits. -/
def Full (v : ℚ) (e : ℤ) : Prop := (2 : ℚ) ^ (52 + e) ≤ v ∧ v < (2 : ℚ) ^ (53 + e)

theorem Full.unique {v : ℚ} {e f : ℤ} (he : Full v e) (hf : Full v f) : e = f := by
  have hle : ∀ {e f : ℤ}, Full v e → Full v f → e ≤ f := by
    intro e f he hf
    have hlt : (2 : ℚ) ^ (52 + e) < (2 : ℚ) ^ (53 + f) := he.1.trans_lt hf.2
    have := (zpow_lt_zpow_iff_right₀ (by norm_num : (1 : ℚ) < 2)).mp hlt
    omega
  exact le_antisymm (hle he hf) (hle hf he)

theorem binade_eq : (binade : ℚ) = (2 : ℚ) ^ (52 : ℤ) := by norm_num [binade]

theorem scale_div_lt_binade_iff (n : Nat) {d : Nat} (hd : d ≠ 0) (e : ℤ) :
    (scale 2 n d e).1 / (scale 2 n d e).2 < binade ↔ (n : ℚ) / d < (2 : ℚ) ^ (52 + e) := by
  have hs : (scale 2 n d e).2 ≠ 0 := scale_ne_zero (by decide) n hd e
  have hpos : (0 : ℚ) < (scale 2 n d e).2 := by exact_mod_cast Nat.pos_of_ne_zero hs
  have hvalue := scale_value 2 n d e
  rw [Nat.div_lt_iff_lt_mul (Nat.pos_of_ne_zero hs), ← Nat.cast_lt (α := ℚ), Nat.cast_mul,
    ← div_lt_iff₀ hpos, hvalue, binade_eq, zpow_neg, ← div_eq_mul_inv, Nat.cast_ofNat,
    div_lt_iff₀ (zpow_pos (by norm_num) e), ← zpow_add₀ (by norm_num)]

/-- The exponent that is chosen is that of a full significand, or the least one. -/
theorem exponentFor_full {n d : Nat} (hn : n ≠ 0) (hd : d ≠ 0) :
    ∃ e, Full ((n : ℚ) / d) e ∧ exponentFor n d = max e (-1074) := by
  obtain ⟨hlow, hhigh⟩ := quotient_bounds hn hd
  have hcut := scale_div_lt_binade_iff n hd ((n.log2 : ℤ) - d.log2 - 52)
  have hsum : 52 + ((n.log2 : ℤ) - d.log2 - 52) = (n.log2 : ℤ) - d.log2 := by omega
  rw [hsum] at hcut
  unfold exponentFor
  -- the difference of the logarithms may be one more than the exponent of the quotient
  by_cases hsmall : (n : ℚ) / d < (2 : ℚ) ^ ((n.log2 : ℤ) - d.log2)
  · refine ⟨(n.log2 : ℤ) - d.log2 - 52 - 1, ⟨?_, ?_⟩, by simp only [if_pos (hcut.mpr hsmall)]⟩
    · have h : 52 + ((n.log2 : ℤ) - d.log2 - 52 - 1) = (n.log2 : ℤ) - d.log2 - 1 := by omega
      rw [h]
      exact hlow.le
    · have h : 53 + ((n.log2 : ℤ) - d.log2 - 52 - 1) = (n.log2 : ℤ) - d.log2 := by omega
      rw [h]
      exact hsmall
  · refine ⟨(n.log2 : ℤ) - d.log2 - 52, ⟨?_, ?_⟩, by simp only [if_neg (mt hcut.mp hsmall)]⟩
    · rw [hsum]
      exact not_lt.mp hsmall
    · have h : 53 + ((n.log2 : ℤ) - d.log2 - 52) = (n.log2 : ℤ) - d.log2 + 1 := by omega
      rw [h]
      exact hhigh

theorem significand_lt (rank : Nat) : significand rank < 2 * binade := by
  have hmod : rank % binade < binade := Nat.mod_lt _ (by decide)
  unfold significand
  split <;> omega

theorem magnitude_full {rank : Nat} (h : binade ≤ rank) : Full (magnitude rank) (exponent rank) := by
  have hpos : (0 : ℚ) < (2 : ℚ) ^ exponent rank := zpow_pos (by norm_num) _
  have hlow : (binade : ℚ) ≤ significand rank := by
    have hsig : binade ≤ significand rank := by
      unfold significand
      split <;> omega
    exact_mod_cast hsig
  have hhigh : (significand rank : ℚ) < 2 * binade := by exact_mod_cast significand_lt rank
  rw [binade_eq] at hlow hhigh
  constructor
  · rw [zpow_add₀ (by norm_num)]
    exact mul_le_mul_of_nonneg_right hlow hpos.le
  · have h53 : (2 : ℚ) ^ (53 : ℤ) = 2 * (2 : ℚ) ^ (52 : ℤ) := by norm_num
    rw [zpow_add₀ (by norm_num), h53]
    exact mul_lt_mul_of_pos_right hhigh hpos

theorem exponent_least {rank : Nat} (h : rank < 2 * binade) : exponent rank = -1074 := if_pos h

theorem exponent_ge (rank : Nat) : -1074 ≤ exponent rank := by
  unfold exponent
  split
  · exact le_refl _
  · next h =>
    have : 2 ≤ rank / binade := (Nat.le_div_iff_mul_le (by decide)).mpr (not_lt.mp h)
    omega

theorem exponentFor_magnitude {n d rank : Nat} (hn : n ≠ 0) (hd : d ≠ 0)
    (hv : (n : ℚ) / d = magnitude rank) : exponentFor n d = exponent rank := by
  obtain ⟨e, hfull, he⟩ := exponentFor_full hn hd
  rw [hv] at hfull
  rw [he]
  by_cases hrank : binade ≤ rank
  · rw [hfull.unique (magnitude_full hrank)]
    exact max_eq_left (exponent_ge rank)
  · -- below the first full binade the magnitude is too small for any other exponent
    have hrank : rank < binade := not_le.mp hrank
    have hexp : exponent rank = -1074 := exponent_least (by omega)
    have hsig : significand rank = rank := if_pos (by omega)
    have hlt : (rank : ℚ) < binade := by exact_mod_cast hrank
    have hsmall : magnitude rank < (2 : ℚ) ^ (52 + (-1074 : ℤ)) := by
      rw [magnitude, hexp, hsig, zpow_add₀ (by norm_num), ← binade_eq]
      exact mul_lt_mul_of_pos_right hlt (zpow_pos (by norm_num) _)
    have hlt : (2 : ℚ) ^ (52 + e) < (2 : ℚ) ^ (52 + (-1074 : ℤ)) := hfull.1.trans_lt hsmall
    have := (zpow_lt_zpow_iff_right₀ (by norm_num : (1 : ℚ) < 2)).mp hlt
    rw [hexp]
    exact max_eq_right (by omega)

theorem divNearest_mul (q : Nat) {d : Nat} (hd : d ≠ 0) : divNearest (q * d) d = q := by
  have hpos : 0 < d := Nat.pos_of_ne_zero hd
  simp [divNearest, Nat.mul_div_cancel q hpos, hpos]

theorem rank_eq (rank : Nat) :
    (exponent rank + 1074).toNat * binade + significand rank = rank := by
  unfold exponent significand
  split
  · simp
  · next h =>
    have hdiv : 2 ≤ rank / binade := (Nat.le_div_iff_mul_le (by decide)).mpr (not_lt.mp h)
    have htoNat : (((rank / binade : Nat) : Int) - 1075 + 1074).toNat = rank / binade - 1 := by omega
    have hmod := Nat.div_add_mod rank binade
    rw [htoNat, Nat.sub_mul, Nat.one_mul, Nat.mul_comm]
    have : binade ≤ binade * (rank / binade) := Nat.le_mul_of_pos_right _ (by omega)
    omega

theorem nearest_magnitude (negative : Bool) {n d : Nat} {rank : Fin rankLimit} (hn : n ≠ 0)
    (hd : d ≠ 0) (hv : (n : ℚ) / d = magnitude rank) : nearest negative n d = .finite negative rank := by
  have hexp := exponentFor_magnitude hn hd hv
  have hs : (scale 2 n d (exponent rank)).2 ≠ 0 := scale_ne_zero (by decide) n hd _
  have hnum : (scale 2 n d (exponent rank)).1 =
      significand rank * (scale 2 n d (exponent rank)).2 := by
    have hvalue := scale_value 2 n d (exponent rank)
    rw [hv, magnitude, Nat.cast_ofNat, mul_assoc, ← zpow_add₀ (by norm_num), add_neg_cancel,
      zpow_zero, mul_one, div_eq_iff (by exact_mod_cast hs)] at hvalue
    exact_mod_cast hvalue
  have hrank : (exponent rank + 1074).toNat * binade +
      divNearest (scale 2 n d (exponent rank)).1 (scale 2 n d (exponent rank)).2 = rank.val := by
    rw [hnum, divNearest_mul _ hs, rank_eq]
  unfold nearest
  rw [if_neg hn]
  simp only [hexp, hrank, rank.isLt, dite_true]

theorem significand_pos {rank : Nat} (h : rank ≠ 0) : 0 < significand rank := by
  have hbinade : 0 < binade := by decide
  unfold significand
  split <;> omega

theorem magnitude_ge {rank : Nat} (h : rank ≠ 0) : (2 : ℚ) ^ (-1074 : ℤ) ≤ magnitude rank := by
  have hsig : (1 : ℚ) ≤ significand rank := by exact_mod_cast significand_pos h
  calc (2 : ℚ) ^ (-1074 : ℤ) ≤ (2 : ℚ) ^ exponent rank :=
        zpow_le_zpow_right₀ (by norm_num) (exponent_ge rank)
    _ ≤ magnitude rank := le_mul_of_one_le_left (zpow_pos (by norm_num) _).le hsig

theorem magnitude_lt {rank : Nat} (h : rank < rankLimit) : magnitude rank < (2 : ℚ) ^ (1024 : ℤ) := by
  have hexp : exponent rank ≤ 971 := by
    unfold exponent
    split
    · decide
    · have : rank / binade < 2047 := (Nat.div_lt_iff_lt_mul (by decide)).mpr h
      omega
  have hsig : (significand rank : ℚ) < (2 : ℚ) ^ (53 : ℤ) := by
    have h53 : (2 : ℚ) ^ (53 : ℤ) = ((2 * binade : Nat) : ℚ) := by norm_num [binade]
    rw [h53]
    exact_mod_cast significand_lt rank
  calc magnitude rank < (2 : ℚ) ^ (53 : ℤ) * (2 : ℚ) ^ exponent rank :=
        mul_lt_mul_of_pos_right hsig (zpow_pos (by norm_num) _)
    _ ≤ (2 : ℚ) ^ (53 : ℤ) * (2 : ℚ) ^ (971 : ℤ) :=
        mul_le_mul_of_nonneg_left (zpow_le_zpow_right₀ (by norm_num) hexp)
          (zpow_pos (by norm_num) _).le
    _ = (2 : ℚ) ^ (1024 : ℤ) := by rw [← zpow_add₀ (by norm_num)]; norm_num

/-- A decimal below the least magnitude: a power of ten is no more than that power of two. -/
theorem decimal_small {mantissa : Nat} {e : ℤ} (hm : mantissa ≠ 0)
    (h : e + (mantissa.log2 : ℤ) < -1200) :
    (mantissa : ℚ) * (10 : ℚ) ^ e < (2 : ℚ) ^ (-1074 : ℤ) := by
  have hten : (10 : ℚ) ^ e ≤ (2 : ℚ) ^ e := by
    obtain ⟨k, rfl⟩ : ∃ k : ℕ, e = -(k : ℤ) := ⟨e.natAbs, by omega⟩
    rw [zpow_neg, zpow_neg, zpow_natCast, zpow_natCast]
    exact inv_anti₀ (by positivity) (pow_le_pow_left₀ (by norm_num) (by norm_num) k)
  calc (mantissa : ℚ) * (10 : ℚ) ^ e
      ≤ (mantissa : ℚ) * (2 : ℚ) ^ e := mul_le_mul_of_nonneg_left hten (Nat.cast_nonneg _)
    _ < (2 : ℚ) ^ ((mantissa.log2 : ℤ) + 1) * (2 : ℚ) ^ e :=
        mul_lt_mul_of_pos_right (log2_bounds hm).2 (zpow_pos (by norm_num) _)
    _ = (2 : ℚ) ^ ((mantissa.log2 : ℤ) + 1 + e) := by rw [← zpow_add₀ (by norm_num)]
    _ ≤ (2 : ℚ) ^ (-1074 : ℤ) := zpow_le_zpow_right₀ (by norm_num) (by omega)

theorem decimal_large {mantissa : Nat} {e : ℤ} (hm : mantissa ≠ 0) (h : 400 < e) :
    (2 : ℚ) ^ (1024 : ℤ) ≤ (mantissa : ℚ) * (10 : ℚ) ^ e := by
  have hone : (1 : ℚ) ≤ mantissa := by exact_mod_cast Nat.pos_of_ne_zero hm
  have hpow : ((2 : ℚ) ^ (3 : ℤ)) ^ (400 : ℤ) = (2 : ℚ) ^ (1200 : ℤ) := (zpow_mul 2 3 400).symm
  calc (2 : ℚ) ^ (1024 : ℤ) ≤ (2 : ℚ) ^ (1200 : ℤ) := zpow_le_zpow_right₀ (by norm_num) (by norm_num)
    _ = ((2 : ℚ) ^ (3 : ℤ)) ^ (400 : ℤ) := hpow.symm
    _ ≤ (10 : ℚ) ^ (400 : ℤ) := zpow_le_zpow_left₀ (by norm_num) (by norm_num) (by norm_num)
    _ ≤ (10 : ℚ) ^ e := zpow_le_zpow_right₀ (by norm_num) h.le
    _ ≤ mantissa * (10 : ℚ) ^ e := le_mul_of_one_le_left (zpow_pos (by norm_num) _).le hone

theorem ofDecimal_magnitude (negative : Bool) {mantissa : Nat} {e : ℤ} {rank : Fin rankLimit}
    (hv : (mantissa : ℚ) * (10 : ℚ) ^ e = magnitude rank) (hrank : rank.val ≠ 0) :
    ofDecimal negative mantissa e = .finite negative rank := by
  -- a magnitude lies between the bounds that are answered without the power
  have hlow := magnitude_ge hrank
  have hm : mantissa ≠ 0 := by
    rintro rfl
    rw [← hv, Nat.cast_zero, zero_mul] at hlow
    exact absurd hlow (not_le.mpr (zpow_pos (by norm_num) _))
  have hlarge : ¬ 400 < e := by
    intro h
    exact absurd (hv ▸ decimal_large hm h) (not_le.mpr (magnitude_lt rank.isLt))
  have hsmall : ¬ e + (mantissa.log2 : ℤ) < -1200 := by
    intro h
    exact absurd (hv ▸ decimal_small hm h) (not_lt.mpr hlow)
  have hd : (scale 10 mantissa 1 (-e)).2 ≠ 0 := scale_ne_zero (by decide) _ (by decide) _
  have hvalue : ((scale 10 mantissa 1 (-e)).1 : ℚ) / (scale 10 mantissa 1 (-e)).2 =
      magnitude rank := by
    rw [scale_value, neg_neg, Nat.cast_one, div_one, Nat.cast_ofNat, hv]
  have hn : (scale 10 mantissa 1 (-e)).1 ≠ 0 := by
    intro h
    rw [h, Nat.cast_zero, zero_div] at hvalue
    exact absurd (hvalue ▸ hlow) (not_le.mpr (zpow_pos (by norm_num) _))
  rw [ofDecimal, if_neg hm, if_neg hlarge, if_neg hsmall]
  exact nearest_magnitude negative hn hd hvalue

theorem ofDecimal_sign {negative : Bool} {mantissa : Nat} {e : ℤ} {rank : Fin rankLimit}
    (h : ofDecimal negative mantissa e = .finite negative rank) (sign : Bool) :
    ofDecimal sign mantissa e = .finite sign rank := by
  unfold ofDecimal nearest zero at *
  split at h
  · next hm =>
    simp only [finite.injEq, true_and] at h
    simp [hm, h]
  next hm =>
  split at h
  · cases h
  next hlarge =>
  split at h
  · next hsmall =>
    simp only [finite.injEq, true_and] at h
    simp [hm, hlarge, hsmall, h]
  next hsmall =>
  dsimp only at h
  split at h
  · next hn =>
    simp only [finite.injEq, true_and] at h
    simp [hm, hlarge, hsmall, hn, h]
  next hn =>
  split at h
  · next hlt =>
    simp only [finite.injEq, true_and] at h
    simp only [if_neg hm, if_neg hlarge, if_neg hsmall, if_neg hn, dif_pos hlt, h]
  · cases h

end Callboard.Binary64
