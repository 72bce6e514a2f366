import TradePulse.Core.Rounding
import TradePulse.Risk.Exact
import Mathlib.Algebra.Order.Archimedean.Real.Basic
import Mathlib.Analysis.Real.Sqrt

/-! # Metrics in real arithmetic

`compute_metrics` with real numbers in place of doubles: the standard deviation
is the square root of the variance, and only the published figures are rounded. -/
namespace TradePulse.Risk

noncomputable instance : PyFloat ℝ where
  ofInt n := some n
  ofString s := (decimal s).map fun q => (q : ℝ)
  isNaN _ := false
  isInf _ := false
  isZero x := x = 0
  lt x y := x < y
  ltInt x n := x < n
  abs x := |x|
  round := Core.roundTo
  sum := List.sum
  sumColumn xs := if xs = [] then none else some xs.sum
  mean xs := if xs.length = 0 then .error .ValueError else .ok (xs.sum / xs.length)
  pstdev xs :=
    let mean := xs.sum / xs.length
    if xs.length = 0 then .error .ValueError
    else .ok √((xs.map fun x => (x - mean) * (x - mean)).sum / xs.length)
  -- no text is exact for a real that is no rational
  toText x := open Classical in
    if h : ∃ q : ℚ, (q : ℝ) = x then PyFloat.toText h.choose else ""
  z95 := (33 / 20 : ℚ)
  thousand := (1000 : ℚ)

namespace Reals

theorem z95_eq : (PyFloat.z95 : ℝ) = 33 / 20 := by
  show ((33 / 20 : ℚ) : ℝ) = 33 / 20
  norm_num

/-- The population variance. -/
noncomputable def variance (returns : List ℝ) : ℝ :=
  let mean := returns.sum / returns.length
  (returns.map fun x => (x - mean) * (x - mean)).sum / returns.length

theorem variance_nonneg (returns : List ℝ) : 0 ≤ variance returns := by
  refine div_nonneg (List.sum_nonneg ?_) (Nat.cast_nonneg _)
  intro y hy
  obtain ⟨x, -, rfl⟩ := List.mem_map.mp hy
  exact mul_self_nonneg _

/-- Cash and what the positions are worth. -/
noncomputable def worth (cash : ℝ) (positions : List (String × ℝ × ℝ)) : ℝ :=
  cash + (positions.map fun (_, qty, price) => qty * price).sum

/-- Two returns have a deviation. -/
noncomputable def deviation (returns : List ℝ) : ℝ :=
  if returns.length > 1 then √(variance returns) else 0

noncomputable def sharpe (returns : List ℝ) : ℝ :=
  if 0 < deviation returns then returns.sum / returns.length / deviation returns else 0

/-- The figures before they are rounded, rounded. -/
noncomputable def published (worth seed : ℝ) (returns : List ℝ) : RiskMetrics ℝ where
  portfolio_value := Core.roundTo worth 2
  pnl := Core.roundTo (worth - seed) 2
  volatility := Core.roundTo (deviation returns) 6
  var := Core.roundTo |PyFloat.z95 * deviation returns * worth| 2
  var_method := "parametric"
  sharpe := Core.roundTo (sharpe returns) 4

theorem deviation_nonneg (returns : List ℝ) : 0 ≤ deviation returns := by
  rw [deviation]
  split
  · exact Real.sqrt_nonneg _
  · exact le_refl 0

theorem length_of_deviation_pos {returns : List ℝ} (h : 0 < deviation returns) :
    returns.length > 1 := by
  by_contra hlen
  rw [deviation, if_neg hlen] at h
  exact lt_irrefl 0 h

theorem pstdev_eq {returns : List ℝ} (h : returns.length > 1) :
    PyFloat.pstdev returns = .ok (deviation returns) := by
  have hne : ¬ returns.length = 0 := by omega
  rw [deviation, if_pos h]
  exact if_neg hne

theorem mean_eq {returns : List ℝ} (h : returns.length > 1) :
    PyFloat.mean returns = .ok (returns.sum / returns.length) := by
  have hne : ¬ returns.length = 0 := by omega
  exact if_neg hne

theorem historyMetrics_eq (portfolioValue : ℝ) (returns : List ℝ) :
    historyMetrics portfolioValue returns =
      .ok (deviation returns, |PyFloat.z95 * deviation returns * portfolioValue|,
        sharpe returns) := by
  rw [historyMetrics]
  by_cases hpos : 0 < deviation returns
  · have hlen := length_of_deviation_pos hpos
    have hlt : PyFloat.lt 0 (deviation returns) = true := decide_eq_true hpos
    rw [if_pos hlen, pstdev_eq hlen, sharpe, if_pos hpos]
    simp only [bind, Except.bind]
    rw [if_pos hlt, mean_eq hlen]
    rfl
  · have hlt : ¬ PyFloat.lt 0 (deviation returns) = true := fun h => hpos (of_decide_eq_true h)
    rw [sharpe, if_neg hpos]
    by_cases hlen : returns.length > 1
    · rw [if_pos hlen, pstdev_eq hlen]
      simp only [bind, Except.bind]
      rw [if_neg hlt]
      rfl
    · have hzero : deviation returns = 0 := if_neg hlen
      rw [hzero] at hlt ⊢
      rw [if_neg hlen]
      simp only [bind, Except.bind, pure, Except.pure]
      rw [if_neg hlt]
      rfl

theorem computeMetrics_eq (cash : ℝ) (positions : List (String × ℝ × ℝ)) (seedCash : ℝ)
    (returns : List ℝ) : computeMetrics cash positions seedCash returns =
      .ok (published (worth cash positions) seedCash returns) := by
  rw [computeMetrics]
  show (historyMetrics (worth cash positions) returns >>= fun _ => _) = _
  rw [historyMetrics_eq]
  rfl

end Reals

end TradePulse.Risk
