import TradePulse.Risk.Reals
import TradePulse.Explain.Backend

/-! # When a metric reads zero

A zero is published, and explained as a lack of history, also where there is
history: when the returns hardly differ, and when the account is worth so
little that its VaR rounds to nothing. -/
namespace TradePulse.Explain

open TradePulse.Risk (PyFloat RiskMetrics computeMetrics)
open TradePulse.Risk.Reals (variance deviation worth published computeMetrics_eq)

/-- The `data` of a `RiskComputed` event, all of whose figures are there. -/
def snapshotOf {K : Type} (accountId computedAt : String) (m : RiskMetrics K) : Snapshot K where
  account_id := accountId
  computed_at := computedAt
  portfolio_value := .number m.portfolio_value
  pnl := .number m.pnl
  volatility := .number m.volatility
  var := .number m.var
  sharpe := .number m.sharpe

/-- The three metrics that need history. -/
def fromHistory : List String := ["volatility", "var", "sharpe"]

/-- A zero among `m` and every word of its explanation that there is not enough
history are true of these returns. -/
structure ZeroIsTruthful (m : RiskMetrics ℝ) (returns : List ℝ) : Prop where
  zero : m.volatility = 0 ∨ m.var = 0 → returns.length < 2
  texts : ∀ accountId computedAt previous,
    ∀ metric ∈ (Backend.explainSnapshot (snapshotOf accountId computedAt m) previous).metrics,
      metric.key ∈ fromHistory → (metric.plain.text ∈ Backend.notYet ↔ returns.length < 2)
  notes : ∀ accountId computedAt previous, Backend.notEnoughYet ∈
    (Backend.explainSnapshot (snapshotOf accountId computedAt m) previous).notes ↔
      returns.length < 2

/-- The returns differ by more than volatility is rounded to, and the VaR of
what the account is worth by more than VaR is. -/
def Measurable (worth : ℝ) (returns : List ℝ) : Prop :=
  ((1 / 2000000 : ℚ) : ℝ) ^ 2 < variance returns ∧
    ((1 / 200 : ℚ) : ℝ) ^ 2 < ((33 / 20 : ℚ) : ℝ) ^ 2 * variance returns * worth ^ 2

/-! ## The explanation of given figures -/

section Figures

variable {m : RiskMetrics ℝ} {accountId computedAt : String} {previous : Option (Snapshot ℝ)}

theorem mem_notes : Backend.notEnoughYet ∈
    (Backend.explainSnapshot (snapshotOf accountId computedAt m) previous).notes ↔
      m.volatility ≤ 0 ∨ m.var ≤ 0 := by
  show Backend.notEnoughYet ∈ Backend.notes (snapshotOf accountId computedAt m) ↔ _
  have hne : Backend.notEnoughYet ∉ Backend.alwaysNoted := by decide +kernel
  rw [Backend.notes, List.mem_append, or_iff_right hne]
  show _ ∈ (if m.volatility ≤ 0 ∨ m.var ≤ 0 then _ else _) ↔ _
  split
  · rename_i h
    exact iff_of_true (List.mem_singleton_self _) h
  · rename_i h
    exact iff_of_false List.not_mem_nil h

/-- The three texts: Sharpe has the volatility beside it. -/
theorem forall_fromHistory {P : String → Prop} :
    (∀ metric ∈ (Backend.explainSnapshot (snapshotOf accountId computedAt m) previous).metrics,
      metric.key ∈ fromHistory → P metric.plain.text) ↔
      P (Backend.volPlain m.volatility).text ∧
      P (Backend.varPlain m.var (Backend.varPctOf m.portfolio_value m.var)).text ∧
      P (Backend.sharpePlain m.sharpe m.volatility).text := by
  show (∀ metric ∈ Backend.metrics (snapshotOf accountId computedAt m), _) ↔ _
  simp [Backend.metrics, fromHistory, snapshotOf, Backend.f]

/-- What the figures must be like, for a given answer to whether there is too
little history. -/
theorem texts_notes_iff (accountId computedAt : String) (previous : Option (Snapshot ℝ))
    (tooLittle : Prop) (hvol : 0 ≤ m.volatility)
    (hvar : 0 ≤ m.var) :
    ((∀ metric ∈ (Backend.explainSnapshot (snapshotOf accountId computedAt m) previous).metrics,
        metric.key ∈ fromHistory → (metric.plain.text ∈ Backend.notYet ↔ tooLittle)) ∧
      (Backend.notEnoughYet ∈
        (Backend.explainSnapshot (snapshotOf accountId computedAt m) previous).notes ↔ tooLittle)) ↔
      (m.volatility = 0 ↔ tooLittle) ∧ (m.var = 0 ↔ tooLittle) := by
  have hvol0 : m.volatility ≤ 0 ↔ m.volatility = 0 := ⟨fun h => le_antisymm h hvol, fun h => h.le⟩
  have hvar0 : m.var ≤ 0 ↔ m.var = 0 := ⟨fun h => le_antisymm h hvar, fun h => h.le⟩
  rw [forall_fromHistory (P := fun text => text ∈ Backend.notYet ↔ tooLittle), mem_notes,
    Backend.volPlain_notYet, Backend.varPlain_notYet, Backend.sharpePlain_notYet, hvol0, hvar0]
  constructor
  · rintro ⟨⟨hvol, hvar, -⟩, -⟩
    exact ⟨hvol, hvar⟩
  · rintro ⟨hvol, hvar⟩
    exact ⟨⟨hvol, hvar, hvol⟩, by rw [hvol, hvar, or_self]⟩

end Figures

/-! ## The published figures -/

section Computed

variable (worth seed : ℝ) (returns : List ℝ)

theorem published_volatility_nonneg : 0 ≤ (published worth seed returns).volatility :=
  Core.roundTo_nonneg (Risk.Reals.deviation_nonneg returns) 6

theorem published_var_nonneg : 0 ≤ (published worth seed returns).var :=
  Core.roundTo_nonneg (abs_nonneg _) 2

variable {worth seed returns}

theorem volatility_eq_zero (h : ¬ returns.length < 2) :
    (published worth seed returns).volatility = 0 ↔ variance returns ≤ (1 / 2000000) ^ 2 := by
  have hdev : deviation returns = √(variance returns) := if_pos (by omega)
  show Core.roundTo (deviation returns) 6 = 0 ↔ _
  rw [Core.roundTo_eq_zero (Risk.Reals.deviation_nonneg returns), hdev]
  have hscale : √(variance returns) * 10 ^ 6 ≤ 1 / 2 ↔ √(variance returns) ≤ 1 / 2000000 := by
    constructor <;> intro hle <;> linarith
  rw [hscale, Real.sqrt_le_left (by norm_num)]

theorem var_eq_zero (h : ¬ returns.length < 2) :
    (published worth seed returns).var = 0 ↔
      (33 / 20) ^ 2 * variance returns * worth ^ 2 ≤ (1 / 200) ^ 2 := by
  have hdev : deviation returns = √(variance returns) := if_pos (by omega)
  have hsq : (PyFloat.z95 * deviation returns * worth) ^ 2 =
      (33 / 20) ^ 2 * variance returns * worth ^ 2 := by
    rw [Risk.Reals.z95_eq, mul_pow, mul_pow, hdev,
      Real.sq_sqrt (Risk.Reals.variance_nonneg returns)]
  show Core.roundTo |PyFloat.z95 * deviation returns * worth| 2 = 0 ↔ _
  rw [Core.roundTo_eq_zero (abs_nonneg _), ← hsq, sq_le_sq]
  have hpos : |(1 / 200 : ℝ)| = 1 / 200 := abs_of_pos (by norm_num)
  rw [hpos]
  constructor <;> intro hle <;> linarith

variable (worth seed) in
/-- Too little history makes both zero. -/
theorem published_zero (h : returns.length < 2) :
    (published worth seed returns).volatility = 0 ∧ (published worth seed returns).var = 0 := by
  have hdev : deviation returns = 0 := if_neg (by omega)
  have hround : ∀ digits, Core.roundTo (0 : ℝ) digits = 0 := fun digits =>
    (Core.onGrid_zero digits).roundTo_eq
  constructor
  · show Core.roundTo (deviation returns) 6 = 0
    rw [hdev, hround]
  · show Core.roundTo |PyFloat.z95 * deviation returns * worth| 2 = 0
    rw [hdev, mul_zero, zero_mul, abs_zero, hround]

theorem zeroIsTruthful_iff : ZeroIsTruthful (published worth seed returns) returns ↔
    ((published worth seed returns).volatility = 0 ↔ returns.length < 2) ∧
      ((published worth seed returns).var = 0 ↔ returns.length < 2) := by
  have hiff := fun accountId computedAt previous => texts_notes_iff accountId computedAt previous
    (returns.length < 2) (published_volatility_nonneg worth seed returns)
    (published_var_nonneg worth seed returns)
  constructor
  · intro h
    exact (hiff "" "" none).mp ⟨h.texts "" "" none, h.notes "" "" none⟩
  · intro h
    refine ⟨?_, fun a c p => ((hiff a c p).mpr h).1, fun a c p => ((hiff a c p).mpr h).2⟩
    intro hzero
    rcases hzero with hzero | hzero
    · exact h.1.mp hzero
    · exact h.2.mp hzero

end Computed

/-- A zero and its explanation are truthful exactly where there are fewer than
two returns or the figures do not round to zero. -/
theorem zero_metrics (cash : ℝ) (positions : List (String × ℝ × ℝ)) (seedCash : ℝ)
    (returns : List ℝ) : ∃ m, computeMetrics cash positions seedCash returns = .ok m ∧
      (ZeroIsTruthful m returns ↔
        returns.length < 2 ∨ Measurable (worth cash positions) returns) := by
  refine ⟨_, computeMetrics_eq cash positions seedCash returns, ?_⟩
  rw [zeroIsTruthful_iff]
  by_cases h : returns.length < 2
  · have hzero := published_zero (worth cash positions) seedCash h
    exact iff_of_true ⟨iff_of_true hzero.1 h, iff_of_true hzero.2 h⟩ (Or.inl h)
  · rw [volatility_eq_zero h, var_eq_zero h, or_iff_right h, iff_false_right h,
      iff_false_right h, not_le, not_le, Measurable]
    push_cast
    rfl

/-- Returns that do not differ: two of them, and a volatility of zero. -/
theorem zero_volatility_with_history :
    ¬ ∀ (cash : ℝ) (positions : List (String × ℝ × ℝ)) (seedCash : ℝ) (returns : List ℝ) m,
      computeMetrics cash positions seedCash returns = .ok m → ZeroIsTruthful m returns := by
  intro h
  have htruthful := h 10000 [] 10000 [0, 0] _ (computeMetrics_eq 10000 [] 10000 [0, 0])
  have hzero : variance [0, 0] ≤ (1 / 2000000) ^ 2 := by norm_num [variance]
  have hlen := htruthful.zero (Or.inl ((volatility_eq_zero (by decide)).mpr hzero))
  exact absurd hlen (by decide)

end TradePulse.Explain
