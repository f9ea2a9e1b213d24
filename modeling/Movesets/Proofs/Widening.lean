import Mathlib.Tactic.Ring
import Movesets.Number.Binary

set_option autoImplicit false

/-!
# Widening 32-bit numbers

Every value of the 32-bit format is a value of the 64-bit one, and rounding gives a value of a
format back as itself.  So a 32-bit number, but a NaN, is unchanged by way of 64 bits.
-/

namespace Movesets.Number

theorem roundDiv_mul_self (q : Nat) {den : Nat} (pos : 0 < den) : roundDiv (q * den) den = q := by
  unfold roundDiv
  rw [Nat.mul_div_cancel q pos, Nat.mul_mod_left, if_pos (by omega)]

namespace Format

variable (F : Format)

theorem half_eq : F.half = 2 ^ (F.precision - 1) := Nat.one_shiftLeft _

theorem units_eq (rank : Nat) : F.units rank =
    if rank < F.half then rank else (F.half + rank % F.half) * 2 ^ (rank / F.half - 1) := by
  rw [units, Nat.shiftLeft_eq]

theorem rankOf_eq (num den : Nat) : F.rankOf num den =
    min F.infinity (F.place num den * F.half + roundDiv num (den * 2 ^ F.place num den)) := by
  rw [rankOf, Nat.shiftLeft_eq]

theorem half_pos : 0 < F.half := by
  rw [half_eq]
  exact Nat.two_pow_pos _

section Significand

-- A significand has as many bits as the format keeps, the first of them set.
variable {m : Nat} (low : F.half ≤ m) (high : m < 2 * F.half) (e : Nat)

include low high

theorem log2_significand : (m * 2 ^ e).log2 = F.precision - 1 + e := by
  have positive : 0 < m := Nat.lt_of_lt_of_le F.half_pos low
  have nonzero : m * 2 ^ e ≠ 0 := Nat.mul_ne_zero (by omega) (Nat.two_pow_pos e).ne'
  refine (Nat.log2_eq_iff nonzero).mpr ⟨?_, ?_⟩
  · rw [Nat.pow_add, ← half_eq]
    exact Nat.mul_le_mul_right _ low
  · calc m * 2 ^ e
      _ < 2 * F.half * 2 ^ e := Nat.mul_lt_mul_of_pos_right high (Nat.two_pow_pos e)
      _ = 2 ^ (F.precision - 1 + e + 1) := by
        rw [half_eq, Nat.pow_add, Nat.pow_add]
        ring

theorem units_significand : F.units ((e + 1) * F.half + (m - F.half)) = m * 2 ^ e := by
  have positive := F.half_pos
  have rest : m - F.half < F.half := by omega
  have large : ¬ (e + 1) * F.half + (m - F.half) < F.half := by
    rw [Nat.add_mul]
    omega
  have exponent : ((e + 1) * F.half + (m - F.half)) / F.half = e + 1 := by
    rw [Nat.add_comm, Nat.add_mul_div_right _ _ positive, Nat.div_eq_of_lt rest, Nat.zero_add]
  have fraction : ((e + 1) * F.half + (m - F.half)) % F.half = m - F.half := by
    rw [Nat.add_comm, Nat.add_mul_mod_self_right, Nat.mod_eq_of_lt rest]
  rw [units_eq, if_neg large, exponent, fraction]
  congr 1
  omega

theorem rankOf_significand {k : Nat} (pos : 0 < k) :
    F.rankOf (m * 2 ^ e * k) k = min F.infinity ((e + 1) * F.half + (m - F.half)) := by
  have place : F.place (m * 2 ^ e * k) k = e := by
    rw [Format.place, Nat.mul_div_cancel _ pos, F.log2_significand low high]
    omega
  have exact : roundDiv (m * 2 ^ e * k) (k * 2 ^ e) = m := by
    rw [Nat.mul_assoc, Nat.mul_comm (2 ^ e) k]
    exact roundDiv_mul_self m (Nat.mul_pos pos (Nat.two_pow_pos e))
  rw [rankOf_eq, place, exact, Nat.add_mul]
  congr 1
  omega

end Significand

theorem rankOf_small {n k : Nat} (small : n < F.half) (pos : 0 < k) :
    F.rankOf (n * k) k = min F.infinity n := by
  have place : F.place (n * k) k = 0 := by
    rw [Format.place, Nat.mul_div_cancel _ pos]
    rcases Nat.eq_zero_or_pos n with rfl | positive
    · simp
    · have bits : n.log2 < F.precision - 1 + 1 :=
        (Nat.log2_lt (by omega)).mpr (Nat.lt_of_lt_of_le (F.half_eq ▸ small)
          (Nat.pow_le_pow_right (by omega) (by omega)))
      omega
  rw [rankOf_eq, place, Nat.pow_zero, Nat.mul_one, roundDiv_mul_self n pos, Nat.zero_mul,
    Nat.zero_add]

theorem rankOf_units {r k : Nat} (finite : r ≤ F.infinity) (pos : 0 < k) :
    F.rankOf (F.units r * k) k = r := by
  by_cases small : r < F.half
  · rw [units_eq, if_pos small, F.rankOf_small small pos, Nat.min_eq_right finite]
  · have positive := F.half_pos
    have fraction : r % F.half < F.half := Nat.mod_lt r positive
    have exponent : 0 < r / F.half := Nat.div_pos (by omega) positive
    have whole : (r / F.half - 1 + 1) * F.half + r % F.half = r := by
      rw [Nat.sub_add_cancel exponent, Nat.mul_comm]
      exact Nat.div_add_mod r F.half
    rw [units_eq, if_neg small, F.rankOf_significand (by omega) (by omega) _ pos,
      Nat.add_sub_cancel_left, whole, Nat.min_eq_right finite]

theorem units_le {r : Nat} : ∃ m e, m < 2 * F.half ∧ F.units r = m * 2 ^ e ∧
    e * F.half ≤ r := by
  have positive := F.half_pos
  by_cases small : r < F.half
  · exact ⟨r, 0, by omega, by simp [units_eq, small], by omega⟩
  · have fraction : r % F.half < F.half := Nat.mod_lt r positive
    refine ⟨F.half + r % F.half, r / F.half - 1, by omega, by rw [units_eq, if_neg small], ?_⟩
    have whole := Nat.div_mul_le_self r F.half
    rw [Nat.sub_mul]
    omega

end Format

theorem exists_units_double {r : Nat} (finite : r < single.infinity) :
    ∃ s, s < double.infinity ∧
      double.units s = single.units r * 2 ^ (double.scale - single.scale) := by
  obtain ⟨m, e, bits, value, exponent⟩ := single.units_le (r := r)
  have bits : m < 2 ^ 24 := bits
  have exponent : e < 255 := by
    have bound : e * 2 ^ 23 ≤ r := exponent
    have finite : r < 0x7F800000 := finite
    omega
  rw [value]
  rcases Nat.eq_zero_or_pos m with rfl | positive
  · exact ⟨0, by decide, by simp [Format.units_eq, Format.half_pos]⟩
  · have low := Nat.log2_self_le positive.ne'
    have high := Nat.lt_log2_self (n := m)
    have length : m.log2 < 24 := (Nat.log2_lt positive.ne').mpr bits
    -- The significand is shifted until it has all bits of the wider format.
    have split (k : Nat) (inside : k ≤ 52) : 2 ^ k * 2 ^ (52 - k) = double.half := by
      rw [← Nat.pow_add, Nat.add_sub_cancel' inside]
      rfl
    have lowest : double.half ≤ m * 2 ^ (52 - m.log2) := by
      rw [← split m.log2 (by omega)]
      exact Nat.mul_le_mul_right _ low
    have highest : m * 2 ^ (52 - m.log2) < 2 * double.half := by
      rw [← split m.log2 (by omega), ← Nat.mul_assoc, Nat.mul_comm 2, ← Nat.pow_succ]
      exact Nat.mul_lt_mul_of_pos_right high (Nat.two_pow_pos _)
    refine ⟨_, ?_, (double.units_significand lowest highest (873 + e + m.log2)).trans ?_⟩
    · have shape : double.half = 2 ^ 52 := rfl
      rw [shape] at lowest highest ⊢
      have bound : double.infinity = 2047 * 2 ^ 52 := rfl
      rw [bound]
      omega
    · have shift : double.scale - single.scale = 925 := rfl
      rw [Nat.mul_assoc, Nat.mul_assoc, ← Nat.pow_add, ← Nat.pow_add]
      exact congrArg (fun k => m * 2 ^ k) (by omega)

/-- A 32-bit number survives being kept in 64 bits, unless it is a NaN. -/
theorem Binary.convert_convert {x : Binary32} (number : x.isNaN = false) :
    (x.convert : Binary64).convert = x := by
  obtain ⟨negative, rank⟩ := x
  have bound : ¬ single.infinity < rank := of_decide_eq_false number
  by_cases infinite : rank = single.infinity
  · subst infinite
    rfl
  · have finite : rank < single.infinity := by omega
    obtain ⟨s, below, value⟩ := exists_units_double finite
    have scaled : single.units rank * 2 ^ double.scale = double.units s * 2 ^ single.scale := by
      have scales : double.scale - single.scale + single.scale = double.scale := rfl
      rw [value, Nat.mul_assoc, ← Nat.pow_add, scales]
    have widened : (⟨negative, rank⟩ : Binary32).convert = (⟨negative, s⟩ : Binary64) := by
      have rounded :
          double.rankOf (single.units rank * 2 ^ double.scale) (2 ^ single.scale) = s := by
        rw [scaled]
        exact double.rankOf_units (Nat.le_of_lt below) (Nat.two_pow_pos _)
      simp only [convert, isNaN, isInfinite, ofUnits, Nat.shiftLeft_eq, Nat.one_mul, rounded]
      simp [infinite, bound]
    have notNaN : ¬ double.infinity < s := by omega
    have notInfinite : s ≠ double.infinity := by omega
    have rounded : single.rankOf (double.units s * 2 ^ single.scale) (2 ^ double.scale) = rank := by
      rw [← scaled]
      exact single.rankOf_units (Nat.le_of_lt finite) (Nat.two_pow_pos _)
    rw [widened]
    simp only [convert, isNaN, isInfinite, ofUnits, Nat.shiftLeft_eq, Nat.one_mul, rounded]
    simp [notNaN, notInfinite]

end Movesets.Number
