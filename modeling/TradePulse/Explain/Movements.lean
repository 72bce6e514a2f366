import TradePulse.Explain.Agreement
import TradePulse.Explain.ZeroMetrics

/-! # What the change texts say of VaR

The text follows the volatility alone, and VaR is volatility times what the
account is worth. So the words about VaR are true exactly where VaR happened to
move the way volatility did. -/
namespace TradePulse.Explain

open TradePulse.Risk (RiskMetrics computeMetrics)
open TradePulse.Risk.Reals (variance deviation worth published computeMetrics_eq)

/-- The words about VaR and about portfolio size are true of two snapshots. -/
structure TrueOfVar (causes : List Cause) (current previous : RiskMetrics ℝ) : Prop where
  rose : .volatilityIncreased ∈ causes ∨ .varRose ∈ causes → previous.var < current.var
  cameDown : .volatilityEased ∈ causes ∨ .varFell ∈ causes → current.var < previous.var
  grew : .varRose ∈ causes → |previous.portfolio_value| < |current.portfolio_value|
  shrank : .varFell ∈ causes → |current.portfolio_value| < |previous.portfolio_value|

/-- VaR moved as volatility did; where only VaR moved, size moved with it. -/
structure VarFollows (current previous : RiskMetrics ℝ) : Prop where
  up : previous.volatility < current.volatility → previous.var < current.var
  down : current.volatility < previous.volatility → current.var < previous.var
  grew : current.volatility = previous.volatility → previous.var < current.var →
    |previous.portfolio_value| < |current.portfolio_value|
  shrank : current.volatility = previous.volatility → current.var < previous.var →
    |current.portfolio_value| < |previous.portfolio_value|

/-- As `compute_metrics` publishes them. -/
def Computed (m : RiskMetrics ℝ) : Prop :=
  ∃ cash positions seedCash returns, computeMetrics cash positions seedCash returns = .ok m

theorem Computed.published {m : RiskMetrics ℝ} (h : Computed m) (accountId computedAt : String) :
    Published (snapshotOf accountId computedAt m) := by
  obtain ⟨cash, positions, seedCash, returns, hm⟩ := h
  rw [computeMetrics_eq] at hm
  cases hm
  exact
    { portfolio_value := Core.onGrid_roundTo _ 2
      pnl := Core.onGrid_roundTo _ 2
      volatility := Core.onGrid_roundTo _ 6
      volatility_nonneg := fun x hx => by
        cases hx
        exact published_volatility_nonneg ..
      var := Core.onGrid_roundTo _ 2
      sharpe := Core.onGrid_roundTo _ 4 }

/-! ## Causes -/

section Causes

variable {K : Type} [Field K] [LinearOrder K]

/-- What a change entry about risk is put down to, by the signs of the changes. -/
def riskCause (volD varD : K) : Option Cause :=
  if 0 < volD then some .volatilityIncreased
  else if volD < 0 then some .volatilityEased
  else if 0 < varD then some .varRose
  else if varD < 0 then some .varFell
  else none

/-- The causes that say something about VaR. -/
def ofRisk : List Cause := [.volatilityIncreased, .volatilityEased, .varRose, .varFell]

section Signs

variable {volD varD : K}

theorem riskCause_increased : riskCause volD varD = some .volatilityIncreased ↔ 0 < volD := by
  rw [riskCause]
  grind

theorem riskCause_eased : riskCause volD varD = some .volatilityEased ↔ volD < 0 := by
  rw [riskCause]
  grind

theorem riskCause_rose : riskCause volD varD = some .varRose ↔ volD = 0 ∧ 0 < varD := by
  rw [riskCause]
  grind

theorem riskCause_fell : riskCause volD varD = some .varFell ↔ volD = 0 ∧ varD < 0 := by
  rw [riskCause]
  grind

end Signs

variable [FloorRing K]

theorem riskChange_cause (volD varD : K) :
    (Backend.riskChange volD varD).map (·.plain.branch) = riskCause volD varD := by
  rw [Backend.riskChange, riskCause]
  rcases lt_trichotomy volD 0 with hvol | hvol | hvol
  · rw [if_pos hvol.ne, if_neg hvol.not_gt, if_pos hvol, if_neg hvol.not_gt]
    rfl
  · rw [if_neg (not_not.mpr hvol), if_neg hvol.not_gt, if_neg hvol.not_lt]
    rcases lt_trichotomy varD 0 with hvar | hvar | hvar
    · simp only [hvar.ne, hvar.not_gt, hvar, ne_eq, not_false_eq_true, if_true, if_false,
        Option.map_some]
    · rw [if_neg (not_not.mpr hvar), if_neg hvar.not_gt, if_neg hvar.not_lt]
      rfl
    · simp only [hvar.ne', hvar, ne_eq, not_false_eq_true, if_true, Option.map_some]
  · rw [if_pos hvol.ne', if_pos hvol, if_pos hvol]
    rfl

theorem valueChange_cause {pvD pnlD : K} {c : Backend.Change K}
    (h : c ∈ (Backend.valueChange pvD pnlD).toList) : c.plain.branch ∉ ofRisk := by
  rw [Backend.valueChange] at h
  split at h
  · cases List.mem_singleton.mp h
    show (if 0 < pvD then Cause.valueRose else .valueFell) ∉ ofRisk
    split <;> decide
  · cases h

theorem sharpeChange_cause {sharpeC sharpeP : K} {c : Backend.Change K}
    (h : c ∈ (Backend.sharpeChange sharpeC sharpeP).toList) : c.plain.branch ∉ ofRisk := by
  rw [Backend.sharpeChange] at h
  split at h
  · cases List.mem_singleton.mp h
    show (if 0 ≤ sharpeC then _ else _ : Passage Cause).branch ∉ ofRisk
    split
    · exact of_decide_eq_true rfl
    · exact of_decide_eq_true rfl
  · cases h

/-- The entries about value and about the Sharpe ratio say nothing of VaR. -/
theorem mem_causes {current previous : Snapshot K} {cause : Cause} (h : cause ∈ ofRisk) :
    cause ∈ (Backend.changes current previous).map (·.plain.branch) ↔
      riskCause (Core.roundTo (Backend.f current.volatility - Backend.f previous.volatility) 6)
        (Core.roundTo (Backend.f current.var - Backend.f previous.var) 2) = some cause := by
  rw [← riskChange_cause, Option.map_eq_some_iff, Backend.changes]
  simp only [List.mem_map, List.mem_append, Option.mem_toList]
  constructor
  · intro hmem
    obtain ⟨c, (hc | hc) | hc, rfl⟩ := hmem
    · exact absurd h (valueChange_cause (Option.mem_toList.mpr hc))
    · exact ⟨c, hc, rfl⟩
    · exact absurd h (sharpeChange_cause (Option.mem_toList.mpr hc))
  · intro hsome
    obtain ⟨c, hc, hcause⟩ := hsome
    exact ⟨c, Or.inl (Or.inr hc), hcause⟩

end Causes

/-! ## Snapshots of the service -/

section Computed

variable {current previous : RiskMetrics ℝ}

theorem trueOfVar_iff {causes : List Cause} (h : ∀ cause ∈ ofRisk, cause ∈ causes ↔
      riskCause (current.volatility - previous.volatility) (current.var - previous.var) =
        some cause) : TrueOfVar causes current previous ↔ VarFollows current previous := by
  have hincreased := h .volatilityIncreased (by decide)
  have heased := h .volatilityEased (by decide)
  have hrose := h .varRose (by decide)
  have hfell := h .varFell (by decide)
  rw [riskCause_increased, sub_pos] at hincreased
  rw [riskCause_eased, sub_neg] at heased
  rw [riskCause_rose, sub_eq_zero, sub_pos] at hrose
  rw [riskCause_fell, sub_eq_zero, sub_neg] at hfell
  constructor
  · intro htrue
    exact
      { up := fun hvol => htrue.rose (Or.inl (hincreased.mpr hvol))
        down := fun hvol => htrue.cameDown (Or.inl (heased.mpr hvol))
        grew := fun hvol hvar => htrue.grew (hrose.mpr ⟨hvol, hvar⟩)
        shrank := fun hvol hvar => htrue.shrank (hfell.mpr ⟨hvol, hvar⟩) }
  · intro hfollows
    refine ⟨?_, ?_, ?_, ?_⟩
    · intro hcause
      rcases hcause with hcause | hcause
      · exact hfollows.up (hincreased.mp hcause)
      · exact (hrose.mp hcause).2
    · intro hcause
      rcases hcause with hcause | hcause
      · exact hfollows.down (heased.mp hcause)
      · exact (hfell.mp hcause).2
    · intro hcause
      exact hfollows.grew (hrose.mp hcause).1 (hrose.mp hcause).2
    · intro hcause
      exact hfollows.shrank (hfell.mp hcause).1 (hfell.mp hcause).2

variable (hcurrent : Computed current) (hprevious : Computed previous)
  (accountId computedAt computedBefore : String)

include hcurrent hprevious

/-- Published figures differ by what is left when the difference is rounded. -/
theorem mem_causes_computed {cause : Cause} (h : cause ∈ ofRisk) :
    cause ∈ (Backend.changes (snapshotOf accountId computedAt current)
      (snapshotOf accountId computedBefore previous)).map (·.plain.branch) ↔
      riskCause (current.volatility - previous.volatility) (current.var - previous.var) =
        some cause := by
  have hcur := hcurrent.published accountId computedAt
  have hprev := hprevious.published accountId computedBefore
  rw [mem_causes h, hcur.volatility.delta hprev.volatility, hcur.var.delta hprev.var]
  rfl

theorem backend_trueOfVar_iff :
    TrueOfVar ((Backend.explainSnapshot (snapshotOf accountId computedAt current)
      (some (snapshotOf accountId computedBefore previous))).changes.map (·.plain.branch))
      current previous ↔ VarFollows current previous :=
  trueOfVar_iff fun _ h => mem_causes_computed hcurrent hprevious _ _ _ h

theorem dashboard_trueOfVar_iff (host : Dashboard.Host ℝ) :
    TrueOfVar ((Dashboard.buildRiskNarrative host (snapshotOf accountId computedAt current)
      (some (snapshotOf accountId computedBefore previous))).changes.map (·.plain.branch))
      current previous ↔ VarFollows current previous := by
  have hshapes := congrArg (List.map fun t : String × Direction × Cause => t.2.2) <|
    changes_agree host (hcurrent.published accountId computedAt)
      (hprevious.published accountId computedBefore)
  rw [List.map_map, List.map_map] at hshapes
  refine trueOfVar_iff fun cause h => ?_
  rw [← mem_causes_computed hcurrent hprevious accountId computedAt computedBefore h]
  exact Iff.of_eq (congrArg (cause ∈ ·) hshapes.symm)

end Computed

/-! ## Two returns of opposite sign -/

theorem deviation_opposite {a : ℝ} (h : 0 ≤ a) : deviation [a, -a] = a := by
  have hvariance : variance [a, -a] = a ^ 2 := by
    simp only [variance, List.sum_cons, List.sum_nil, List.map_cons, List.map_nil,
      List.length_cons, List.length_nil]
    push_cast
    ring
  rw [deviation, if_pos (show [a, -a].length > 1 from Nat.lt_succ_self 1), hvariance,
    Real.sqrt_sq h]

/-- An account that is worth `cash` and has seen these two returns. -/
noncomputable def swinging (cash a : ℝ) : RiskMetrics ℝ := published cash 10000 [a, -a]

theorem computed_swinging (cash a : ℝ) : Computed (swinging cash a) := by
  refine ⟨cash, [], 10000, [a, -a], ?_⟩
  have hworth : worth cash [] = cash := by
    rw [worth, List.map_nil, List.sum_nil, add_zero]
  rw [computeMetrics_eq, hworth]
  rfl

theorem swinging_volatility {cash a : ℝ} (h : 0 ≤ a) (hgrid : Core.OnGrid 6 a) :
    (swinging cash a).volatility = a := by
  show Core.roundTo (deviation [a, -a]) 6 = a
  rw [deviation_opposite h, hgrid.roundTo_eq]

theorem swinging_var {cash a : ℝ} (h : 0 ≤ a) (hcash : 0 ≤ cash)
    (hgrid : Core.OnGrid 2 (33 / 20 * a * cash)) :
    (swinging cash a).var = 33 / 20 * a * cash := by
  show Core.roundTo |Risk.PyFloat.z95 * deviation [a, -a] * cash| 2 = _
  rw [Risk.Reals.z95_eq, deviation_opposite h, abs_of_nonneg (by positivity), hgrid.roundTo_eq]

/-- Volatility doubles while the account loses most of its value: VaR falls from
165 to 33, and both texts say that it rose. -/
theorem var_said_to_rise :
    let current := swinging 1000 (2 / 100)
    let previous := swinging 10000 (1 / 100)
    let now := snapshotOf "acct_123" "2026-09-01T12:00:01Z" current
    let before := snapshotOf "acct_123" "2026-09-01T12:00:00Z" previous
    Computed current ∧ Computed previous ∧
      ¬ TrueOfVar ((Backend.explainSnapshot now (some before)).changes.map (·.plain.branch))
          current previous ∧
        ¬ TrueOfVar ((Dashboard.buildRiskNarrative Dashboard.enUS now (some before)).changes.map
          (·.plain.branch)) current previous := by
  have hcur := computed_swinging 1000 (2 / 100)
  have hprev := computed_swinging 10000 (1 / 100)
  have hnot : ¬ VarFollows (swinging 1000 (2 / 100)) (swinging 10000 (1 / 100)) := by
    intro hfollows
    have hup := hfollows.up
    rw [swinging_volatility (by norm_num) ⟨10000, by norm_num⟩,
      swinging_volatility (by norm_num) ⟨20000, by norm_num⟩,
      swinging_var (by norm_num) (by norm_num) ⟨16500, by norm_num⟩,
      swinging_var (by norm_num) (by norm_num) ⟨3300, by norm_num⟩] at hup
    exact absurd (hup (by norm_num)) (by norm_num)
  refine ⟨hcur, hprev, ?_, ?_⟩
  · exact fun htrue => hnot ((backend_trueOfVar_iff hcur hprev ..).mp htrue)
  · exact fun htrue => hnot ((dashboard_trueOfVar_iff hcur hprev ..).mp htrue)

/-- Over REST and on the dashboard, the words about VaR are true exactly where
it moved as volatility did, or alone and as the size did. -/
theorem change_texts (host : Dashboard.Host ℝ) {current previous : RiskMetrics ℝ}
    (hcurrent : Computed current) (hprevious : Computed previous)
    (accountId computedAt computedBefore : String) :
    let now := snapshotOf accountId computedAt current
    let before := snapshotOf accountId computedBefore previous
    (TrueOfVar ((Backend.explainSnapshot now (some before)).changes.map (·.plain.branch))
        current previous ∧
      TrueOfVar ((Dashboard.buildRiskNarrative host now (some before)).changes.map
        (·.plain.branch)) current previous) ↔ VarFollows current previous := by
  intro now before
  rw [backend_trueOfVar_iff hcurrent hprevious, dashboard_trueOfVar_iff hcurrent hprevious,
    and_self_iff]

/-- Volatility and VaR double. -/
theorem change_texts_doubled :
    let current := swinging 10000 (2 / 100)
    let previous := swinging 10000 (1 / 100)
    let now := snapshotOf "acct_123" "2026-09-01T12:00:01Z" current
    let before := snapshotOf "acct_123" "2026-09-01T12:00:00Z" previous
    TrueOfVar ((Backend.explainSnapshot now (some before)).changes.map (·.plain.branch))
        current previous ∧
      TrueOfVar ((Dashboard.buildRiskNarrative Dashboard.enUS now (some before)).changes.map
        (·.plain.branch)) current previous := by
  have hvol : (swinging 10000 (1 / 100)).volatility < (swinging 10000 (2 / 100)).volatility := by
    rw [swinging_volatility (by norm_num) ⟨10000, by norm_num⟩,
      swinging_volatility (by norm_num) ⟨20000, by norm_num⟩]
    norm_num
  have hvar : (swinging 10000 (1 / 100)).var < (swinging 10000 (2 / 100)).var := by
    rw [swinging_var (by norm_num) (by norm_num) ⟨16500, by norm_num⟩,
      swinging_var (by norm_num) (by norm_num) ⟨33000, by norm_num⟩]
    norm_num
  refine (change_texts Dashboard.enUS (computed_swinging 10000 (2 / 100))
    (computed_swinging 10000 (1 / 100)) "acct_123" "2026-09-01T12:00:01Z"
    "2026-09-01T12:00:00Z").mpr ?_
  exact
    { up := fun _ => hvar
      down := fun h => absurd h hvol.asymm
      grew := fun h => absurd h hvol.ne'
      shrank := fun h => absurd h hvol.ne' }

end TradePulse.Explain
