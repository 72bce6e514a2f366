import Mathlib.Algebra.Order.Round
import Mathlib.Data.Rat.Floor
import Mathlib.Tactic.Linarith
import Mathlib.Tactic.Ring
import Mathlib.Tactic.FieldSimp
import Mathlib.Tactic.NormNum

/-! # Fixed-scale decimals and rounding on store

`NUMERIC(p, s)` columns hold decimals with `s` digits after the point and at
most `p` digits in all. A value is rounded half away from zero when it is
stored, and one that does not fit is refused. Rounding half away from zero is
not translation invariant: the tie lemmas say exactly where a rounded sum and
a sum of rounded terms part. -/
namespace TradePulse.Core

/-- Round to the nearest integer, ties away from zero. -/
def roundHalfAway (q : ℚ) : ℤ := if 0 ≤ q then round q else -round (-q)

/-- `q` is half-way between two integers. -/
def IsTie (q : ℚ) : Prop := Int.fract q = 1 / 2

instance (q : ℚ) : Decidable (IsTie q) := inferInstanceAs (Decidable (_ = _))

theorem roundHalfAway_of_nonneg {q : ℚ} (h : 0 ≤ q) : roundHalfAway q = round q := if_pos h

@[simp] theorem roundHalfAway_intCast (z : ℤ) : roundHalfAway (z : ℚ) = z := by
  unfold roundHalfAway
  split
  · exact round_intCast z
  · rw [← Int.cast_neg, round_intCast, neg_neg]

theorem roundHalfAway_neg (q : ℚ) : roundHalfAway (-q) = -roundHalfAway q := by
  rcases lt_trichotomy q 0 with h | h | h
  · simp [roundHalfAway, h.le, not_le.mpr h]
  · subst h; simp [roundHalfAway]
  · simp [roundHalfAway, h.le, not_le.mpr h]

theorem roundHalfAway_nonneg {q : ℚ} (h : 0 ≤ q) : 0 ≤ roundHalfAway q := by
  rw [roundHalfAway_of_nonneg h, round_eq]
  exact Int.floor_nonneg.mpr (by linarith)

/-- Rounding moves no value except to the integer it already is. -/
theorem roundHalfAway_eq_iff {q : ℚ} : (roundHalfAway q : ℚ) = q ↔ ∃ z : ℤ, q = z :=
  ⟨fun h => ⟨_, h.symm⟩, by rintro ⟨z, rfl⟩; simp⟩

/-- Adding a nonnegative amount to a nonnegative integer commutes with rounding. -/
theorem roundHalfAway_add {z : ℤ} {q : ℚ} (hz : 0 ≤ z) (hq : 0 ≤ q) :
    roundHalfAway (z + q) = z + roundHalfAway q := by
  have hz' : (0 : ℚ) ≤ z := by exact_mod_cast hz
  rw [roundHalfAway_of_nonneg hq, roundHalfAway_of_nonneg (by linarith), round_intCast_add]

/-- Taking an amount off an integer commutes with rounding except at a tie,
where the difference is rounded up although the amount is rounded up too. -/
theorem roundHalfAway_sub {z : ℤ} {q : ℚ} (hq : 0 ≤ q) (hle : 0 ≤ z - q) :
    roundHalfAway (z - q) = z - roundHalfAway q + if IsTie q then 1 else 0 := by
  rw [roundHalfAway_of_nonneg hle, roundHalfAway_of_nonneg hq, sub_eq_add_neg,
    round_intCast_add]
  have hf := Int.floor_add_fract q
  have h0 := Int.fract_nonneg q
  have h1 := Int.fract_lt_one q
  have key : round (-q) = -round q + if IsTie q then 1 else 0 := by
    rcases lt_trichotomy (Int.fract q) (1 / 2) with h | h | h
    · have hr : round q = ⌊q⌋ := round_eq_iff.mpr ⟨by linarith, by linarith⟩
      rw [if_neg (by unfold IsTie; exact h.ne), hr]
      exact round_eq_iff.mpr ⟨by push_cast; linarith, by push_cast; linarith⟩
    · have hr : round q = ⌊q⌋ + 1 :=
        round_eq_iff.mpr ⟨by push_cast; linarith, by push_cast; linarith⟩
      rw [if_pos (show IsTie q from h), hr]
      exact round_eq_iff.mpr ⟨by push_cast; linarith, by push_cast; linarith⟩
    · have hr : round q = ⌊q⌋ + 1 :=
        round_eq_iff.mpr ⟨by push_cast; linarith, by push_cast; linarith⟩
      rw [if_neg (by unfold IsTie; exact h.ne'), hr]
      exact round_eq_iff.mpr ⟨by push_cast; linarith, by push_cast; linarith⟩
  rw [key]
  ring

/-! ## Stored decimals -/

/-- A value of a `NUMERIC(p, s)` column, in units of `10 ^ -s`. -/
structure Numeric (p s : ℕ) where
  units : ℤ
  fits : |units| < 10 ^ p
  deriving DecidableEq

namespace Numeric

variable {p s : ℕ}

def toRat (n : Numeric p s) : ℚ := n.units / 10 ^ s

/-- The value a column holds after `q` is stored in it, if it fits. -/
def store (p s : ℕ) (q : ℚ) : Option (Numeric p s) :=
  let u := roundHalfAway (q * 10 ^ s)
  if h : |u| < 10 ^ p then some ⟨u, h⟩ else none

/-- `q` has at most `s` digits after the decimal point. -/
def Exact (s : ℕ) (q : ℚ) : Prop := (q * 10 ^ s).den = 1

instance (q : ℚ) : Decidable (Exact s q) := inferInstanceAs (Decidable (_ = _))

theorem exact_iff {q : ℚ} : Exact s q ↔ ∃ z : ℤ, q * 10 ^ s = z :=
  ⟨fun h => ⟨_, (Rat.coe_int_num_of_den_eq_one h).symm⟩, by
    rintro ⟨z, hz⟩; unfold Exact; rw [hz]; rfl⟩

theorem toRat_mul (n : Numeric p s) : n.toRat * 10 ^ s = n.units := by
  unfold toRat
  exact div_mul_cancel₀ _ (by positivity)

@[simp] theorem toRat_nonneg {n : Numeric p s} : 0 ≤ n.toRat ↔ 0 ≤ n.units := by
  unfold toRat
  rw [le_div_iff₀ (by positivity), zero_mul]
  exact Int.cast_nonneg_iff

@[simp] theorem toRat_pos {n : Numeric p s} : 0 < n.toRat ↔ 0 < n.units := by
  unfold toRat
  rw [lt_div_iff₀ (by positivity), zero_mul]
  exact Int.cast_pos

theorem store_units {q : ℚ} {n : Numeric p s} (h : store p s q = some n) :
    n.units = roundHalfAway (q * 10 ^ s) := by
  simp only [store, Option.dite_none_right_eq_some, Option.some.injEq] at h
  obtain ⟨_, rfl⟩ := h
  rfl

/-- A stored value is the value itself exactly when it had at most `s` decimals. -/
theorem store_toRat_eq_iff {q : ℚ} {n : Numeric p s} (h : store p s q = some n) :
    n.toRat = q ↔ Exact s q := by
  have hpos : (10 ^ s : ℚ) ≠ 0 := by positivity
  rw [exact_iff, ← mul_left_inj' hpos, toRat_mul, store_units h]
  exact roundHalfAway_eq_iff

theorem Exact.neg {q : ℚ} (h : Exact s q) : Exact s (-q) := by
  obtain ⟨z, hz⟩ := exact_iff.mp h
  exact exact_iff.mpr ⟨-z, by rw [neg_mul, hz, Int.cast_neg]⟩

end Numeric
end TradePulse.Core
