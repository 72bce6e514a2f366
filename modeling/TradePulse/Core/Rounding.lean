import Mathlib.Algebra.Order.Floor.Ring
import Mathlib.Tactic.Linarith
import Mathlib.Tactic.FieldSimp
import Mathlib.Tactic.Ring

/-! # Rounding half to even

Rounding to an integer and to a number of decimal places in any ordered field
with a floor, and the decimal fractions that rounding leaves as they are. -/
namespace TradePulse.Core

/-! ## Decimal fractions -/

section Grid

variable {K : Type} [Field K]

/-- A multiple of the last of these decimal places. -/
def OnGrid (digits : ℕ) (x : K) : Prop := ∃ n : ℤ, x = n / 10 ^ digits

theorem onGrid_zero (digits : ℕ) : OnGrid digits (0 : K) :=
  ⟨0, by rw [Int.cast_zero, zero_div]⟩

theorem OnGrid.sub {digits : ℕ} {x y : K} (hx : OnGrid digits x) (hy : OnGrid digits y) :
    OnGrid digits (x - y) := by
  obtain ⟨n, rfl⟩ := hx
  obtain ⟨m, rfl⟩ := hy
  exact ⟨n - m, by rw [Int.cast_sub, sub_div]⟩

variable [LinearOrder K] [IsStrictOrderedRing K]

theorem scale_pos (digits : ℕ) : (0 : K) < 10 ^ digits := by positivity

/-- What is not zero is at least one unit of the last place away from it. -/
theorem OnGrid.abs_ge {digits : ℕ} {x : K} (h : OnGrid digits x) (hx : x ≠ 0) :
    1 / 10 ^ digits ≤ |x| := by
  obtain ⟨n, rfl⟩ := h
  have hscale : (0 : K) < 10 ^ digits := scale_pos digits
  have hn : n ≠ 0 := by
    intro hn
    exact hx (by rw [hn, Int.cast_zero, zero_div])
  have hone : (1 : K) ≤ |(n : K)| := by
    rw [← Int.cast_abs]
    exact_mod_cast Int.one_le_abs hn
  rw [abs_div, abs_of_pos hscale]
  exact div_le_div_of_nonneg_right hone hscale.le

end Grid

/-! ## Rounding -/

section Rounding

variable {K : Type} [Field K] [LinearOrder K] [FloorRing K]

/-- The nearest integer, the even one of two. -/
def roundEven (y : K) : ℤ :=
  if 1 / 2 < y - ⌊y⌋ ∨ y - ⌊y⌋ = 1 / 2 ∧ ⌊y⌋ % 2 = 1 then ⌊y⌋ + 1 else ⌊y⌋

/-- `round(x, digits)`. -/
def roundTo (x : K) (digits : ℕ) : K := (roundEven (x * 10 ^ digits) : K) / 10 ^ digits

theorem onGrid_roundTo (x : K) (digits : ℕ) : OnGrid digits (roundTo x digits) := ⟨_, rfl⟩

theorem roundEven_nonneg {y : K} (h : 0 ≤ y) : 0 ≤ roundEven y := by
  have hfloor := Int.floor_nonneg.mpr h
  rw [roundEven]
  split
  · omega
  · exact hfloor

variable [IsStrictOrderedRing K]

theorem roundEven_intCast (n : ℤ) : roundEven (n : K) = n := by
  have hsub : (n : K) - ⌊(n : K)⌋ = 0 := by rw [Int.floor_intCast, sub_self]
  rw [roundEven, hsub, if_neg, Int.floor_intCast]
  intro hup
  rcases hup with h | ⟨h, -⟩
  · linarith
  · linarith

theorem OnGrid.roundTo_eq {digits : ℕ} {x : K} (h : OnGrid digits x) : roundTo x digits = x := by
  obtain ⟨n, rfl⟩ := h
  rw [roundTo, div_mul_cancel₀ _ (scale_pos digits).ne', roundEven_intCast]

theorem roundEven_eq_zero {y : K} (h : 0 ≤ y) : roundEven y = 0 ↔ y ≤ 1 / 2 := by
  have hfloor := Int.floor_nonneg.mpr h
  constructor
  · intro hzero
    rw [roundEven] at hzero
    split at hzero
    · omega
    · rename_i hup
      rw [hzero, Int.cast_zero, sub_zero] at hup
      exact not_lt.mp fun hbig => hup (Or.inl hbig)
  · intro hhalf
    have hz : ⌊y⌋ = 0 := by
      rw [Int.floor_eq_zero_iff]
      exact ⟨h, by linarith⟩
    rw [roundEven, hz, if_neg]
    rw [Int.cast_zero, sub_zero]
    intro hup
    rcases hup with hup | hup
    · exact absurd hup (not_lt.mpr hhalf)
    · exact absurd hup.2 (by decide)

section Nonneg

variable {x : K} (h : 0 ≤ x) (digits : ℕ)

include h

theorem roundTo_nonneg : 0 ≤ roundTo x digits := by
  have hy : 0 ≤ x * 10 ^ digits := mul_nonneg h (scale_pos digits).le
  exact div_nonneg (Int.cast_nonneg (roundEven_nonneg hy)) (scale_pos digits).le

/-- What rounds to nothing is at most half a unit of the last place. -/
theorem roundTo_eq_zero : roundTo x digits = 0 ↔ x * 10 ^ digits ≤ 1 / 2 := by
  have hy : 0 ≤ x * 10 ^ digits := mul_nonneg h (scale_pos digits).le
  rw [roundTo, div_eq_zero_iff, or_iff_left (scale_pos digits).ne', Int.cast_eq_zero,
    roundEven_eq_zero hy]

end Nonneg

end Rounding

end TradePulse.Core
