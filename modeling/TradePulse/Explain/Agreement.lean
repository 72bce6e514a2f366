import TradePulse.Explain.Backend
import TradePulse.Explain.Dashboard
import Mathlib.Data.Rat.Floor

/-! # Both explanations take the same branches

The service calls a figure changed when the difference does not round to zero,
the dashboard when it is no smaller than an epsilon. On published figures,
which are decimal fractions, both mean that the figures differ. -/
namespace TradePulse.Explain

variable {K : Type} [Field K] [LinearOrder K] [IsStrictOrderedRing K] [FloorRing K]

/-- A number, if there is one, with this many decimal places. -/
def Entry.OnGrid (digits : ℕ) : Entry K → Prop
  | .number x => Core.OnGrid digits x
  | .missing | .null => True

/-- The figures as the service rounds them. -/
structure Published (s : Snapshot K) : Prop where
  portfolio_value : s.portfolio_value.OnGrid 2
  pnl : s.pnl.OnGrid 2
  volatility : s.volatility.OnGrid 6
  volatility_nonneg : ∀ x, s.volatility = .number x → 0 ≤ x
  var : s.var.OnGrid 2
  sharpe : s.sharpe.OnGrid 4

/-- The same branches everywhere, and what follows from them. -/
structure Agree (served : Backend.Narrative K) (shown : Dashboard.Narrative) : Prop where
  account_id : served.account_id = shown.account_id
  computed_at : served.computed_at = shown.computed_at
  headline : served.headline.branch = shown.headline.branch
  summary : served.summary = shown.summary
  metrics : served.metrics.map (fun m => (m.key, m.plain.branch)) =
    shown.metrics.map fun m => (m.key, m.plain.branch)
  changes : served.changes.map (fun c => (c.key, c.direction)) =
    shown.changes.map fun c => (c.key, c.direction)
  causes : served.changes.map (·.plain.branch) = shown.changes.map (·.plain.branch)
  notes : served.notes.length = shown.notes.length

/-! ## Figures -/

omit [LinearOrder K] [IsStrictOrderedRing K] [FloorRing K] in
theorem f_eq_num (e : Entry K) : Backend.f e = Dashboard.num e := by
  cases e <;> rfl

omit [LinearOrder K] [IsStrictOrderedRing K] [FloorRing K] in
theorem Entry.OnGrid.num {digits : ℕ} {e : Entry K} (h : e.OnGrid digits) :
    Core.OnGrid digits (Dashboard.num e) := by
  cases e with
  | number x => exact h
  | missing => exact Core.onGrid_zero digits
  | null => exact Core.onGrid_zero digits

theorem Entry.OnGrid.delta {digits : ℕ} {cur prev : Entry K} (hcur : cur.OnGrid digits)
    (hprev : prev.OnGrid digits) :
    Core.roundTo (Backend.f cur - Backend.f prev) digits =
      Dashboard.num cur - Dashboard.num prev := by
  rw [f_eq_num, f_eq_num, (hcur.num.sub hprev.num).roundTo_eq]

omit [FloorRing K] in
/-- An epsilon of at most one unit tells decimal fractions apart. -/
theorem roundEq_zero {digits : ℕ} {d : K} (h : Core.OnGrid digits d) (eps : K) (heps : 0 < eps)
    (hunit : eps ≤ 1 / 10 ^ digits) : Dashboard.roundEq d 0 eps = decide (d = 0) := by
  rw [Dashboard.roundEq, sub_zero]
  by_cases hd : d = 0
  · rw [decide_eq_true hd, hd, abs_zero]
    exact decide_eq_true heps
  · rw [decide_eq_false hd]
    exact decide_eq_false (not_lt.mpr (hunit.trans (h.abs_ge hd)))

/-! ## Changes -/

/-- What the two kinds of change entry have in common. -/
def Backend.Change.shape (c : Backend.Change K) : String × Direction × Cause :=
  (c.key, c.direction, c.plain.branch)

def Dashboard.Change.shape (c : Dashboard.Change) : String × Direction × Cause :=
  (c.key, c.direction, c.plain.branch)

section Changes

variable (host : Dashboard.Host K) {pvD volD varD : K}

theorem valueChange_agrees (pnlD : K) (h : Core.OnGrid 2 pvD) :
    (Backend.valueChange pvD pnlD).map Backend.Change.shape =
      (Dashboard.valueChange host pvD pnlD).map Dashboard.Change.shape := by
  have heq := roundEq_zero h (5 / 1000 : ℚ) (by norm_num) (by norm_num)
  rw [Backend.valueChange, Dashboard.valueChange, heq]
  by_cases hd : pvD = 0
  · simp only [hd, ne_eq, not_true_eq_false, if_false, decide_true, Bool.not_true,
      Bool.false_eq_true, Option.map_none]
  · simp only [hd, ne_eq, not_false_eq_true, if_true, decide_false, Bool.not_false,
      Option.map_some]
    rfl

theorem riskChange_agrees (hvol : Core.OnGrid 6 volD) (hvar : Core.OnGrid 2 varD) :
    (Backend.riskChange volD varD).map Backend.Change.shape =
      (Dashboard.riskChange host volD varD).map Dashboard.Change.shape := by
  have heqVol := roundEq_zero hvol (1 / 1000000 : ℚ) (by norm_num) (by norm_num)
  have heqVar := roundEq_zero hvar (5 / 1000 : ℚ) (by norm_num) (by norm_num)
  rw [Backend.riskChange, Dashboard.riskChange, heqVol, heqVar]
  by_cases hvol : volD = 0
  · by_cases hvar : varD = 0
    · simp only [hvol, hvar, ne_eq, not_true_eq_false, if_false, decide_true, Bool.not_true,
        Bool.false_eq_true, Option.map_none]
    · simp only [hvol, hvar, ne_eq, not_true_eq_false, not_false_eq_true, if_true, if_false,
        decide_true, decide_false, Bool.not_true, Bool.not_false, Bool.false_eq_true,
        Option.map_some]
      rfl
  · simp only [hvol, ne_eq, not_false_eq_true, if_true, decide_false, Bool.not_false,
      Option.map_some, Backend.Change.shape, Dashboard.Change.shape]
    by_cases hup : 0 < volD
    · simp only [hup, if_true]
      rfl
    · simp only [hup, if_false]
      rfl

omit [IsStrictOrderedRing K] in
theorem sharpeChange_agrees (sharpeC sharpeP : K) :
    (Backend.sharpeChange sharpeC sharpeP).map Backend.Change.shape =
      (Dashboard.sharpeChange sharpeC sharpeP).map Dashboard.Change.shape := by
  rw [Backend.sharpeChange, Dashboard.sharpeChange]
  split
  · by_cases hc : 0 ≤ sharpeC
    · simp only [hc, if_true]
      rfl
    · simp only [hc, if_false]
      rfl
  · rfl

theorem changes_agree {cur prev : Snapshot K} (hcur : Published cur) (hprev : Published prev) :
    (Backend.changes cur prev).map Backend.Change.shape =
      (Dashboard.changes host cur prev).map Dashboard.Change.shape := by
  have hpv := hcur.portfolio_value.num.sub hprev.portfolio_value.num
  have hvol := hcur.volatility.num.sub hprev.volatility.num
  have hvar := hcur.var.num.sub hprev.var.num
  rw [Backend.changes, Dashboard.changes, hcur.portfolio_value.delta hprev.portfolio_value,
    hcur.pnl.delta hprev.pnl, hcur.volatility.delta hprev.volatility, hcur.var.delta hprev.var,
    f_eq_num, f_eq_num]
  simp only [List.map_append, ← Option.toList_map]
  rw [valueChange_agrees host _ hpv, riskChange_agrees host hvol hvar, sharpeChange_agrees]

end Changes

/-! ## Levels -/

section Levels

variable (host : Dashboard.Host K)

omit [IsStrictOrderedRing K] in
theorem headline_agrees (s : Snapshot K) :
    (Backend.headline s).branch = (Dashboard.headline host s).branch := by
  rw [Backend.headline, Dashboard.headline]
  simp only [f_eq_num]
  split
  · rfl
  · split <;> rfl

omit [IsStrictOrderedRing K] [FloorRing K] in
theorem volBand_agrees (vol : K) : Backend.volBand vol = Dashboard.volBand vol := rfl

omit [IsStrictOrderedRing K] [FloorRing K] in
theorem sharpeBand_agrees (sharpe vol : K) :
    Backend.sharpeBand sharpe vol = Dashboard.sharpeBand sharpe vol := rfl

omit [IsStrictOrderedRing K] in
theorem metrics_agree (s : Snapshot K) :
    (Backend.metrics s).map (fun m => (m.key, m.plain.branch)) =
      (Dashboard.metrics host s).map fun m => (m.key, m.plain.branch) := by
  simp only [Backend.metrics, Dashboard.metrics, f_eq_num, List.map_cons, List.map_nil,
    Backend.pnlPlain_branch, Backend.volPlain_branch, Backend.varPlain_branch,
    Backend.sharpePlain_branch, apply_ite Passage.branch, volBand_agrees, sharpeBand_agrees]

omit [IsStrictOrderedRing K] [FloorRing K] in
theorem notes_agree (s : Snapshot K) :
    (Backend.notes s).length = (Dashboard.notes s).length := by
  rw [Backend.notes, Dashboard.notes, f_eq_num, f_eq_num, Backend.alwaysNoted]
  split <;> simp only [List.length_append, List.length_cons, List.length_nil]

end Levels

/-! ## The narratives -/

omit [Field K] [LinearOrder K] [IsStrictOrderedRing K] [FloorRing K] in
/-- The entries on both sides have the same shapes. -/
theorem Agree.of_shapes {served : Backend.Narrative K} {shown : Dashboard.Narrative}
    (hid : served.account_id = shown.account_id) (hat : served.computed_at = shown.computed_at)
    (hhead : served.headline.branch = shown.headline.branch)
    (hsum : served.summary = if served.changes.isEmpty then whatItMeans else whatChanged)
    (hsum' : shown.summary = if shown.changes.length ≠ 0 then whatChanged else whatItMeans)
    (hmetrics : served.metrics.map (fun m => (m.key, m.plain.branch)) =
      shown.metrics.map fun m => (m.key, m.plain.branch))
    (hshape : served.changes.map Backend.Change.shape =
      shown.changes.map Dashboard.Change.shape)
    (hnotes : served.notes.length = shown.notes.length) : Agree served shown where
  account_id := hid
  computed_at := hat
  headline := hhead
  summary := by
    have hlen : served.changes.length = shown.changes.length := by
      have hlen := congrArg List.length hshape
      rwa [List.length_map, List.length_map] at hlen
    rw [hsum, hsum', ← hlen]
    cases served.changes with
    | nil => rfl
    | cons c cs => rfl
  metrics := hmetrics
  changes := by
    have hpairs := congrArg (List.map fun t : String × Direction × Cause => (t.1, t.2.1)) hshape
    rwa [List.map_map, List.map_map] at hpairs
  causes := by
    have hlast := congrArg (List.map fun t : String × Direction × Cause => t.2.2) hshape
    rwa [List.map_map, List.map_map] at hlast
  notes := hnotes

/-- What the endpoint serves and what the dashboard shows of published
snapshots, whatever the dashboard's locale. -/
theorem explanations_agree (host : Dashboard.Host K) {current : Snapshot K}
    {previous : Option (Snapshot K)} (hcurrent : Published current)
    (hprevious : ∀ s, previous = some s → Published s) :
    Agree (Backend.explainSnapshot current previous)
      (Dashboard.buildRiskNarrative host current previous) := by
  have hshape : (Backend.explainSnapshot current previous).changes.map Backend.Change.shape =
      (Dashboard.buildRiskNarrative host current previous).changes.map Dashboard.Change.shape := by
    cases previous with
    | none => rfl
    | some s => exact changes_agree host hcurrent (hprevious s rfl)
  exact .of_shapes rfl rfl (headline_agrees host current) rfl rfl (metrics_agree host current)
    hshape (notes_agree current)

/-- A volatility that moved by one unit of its last place, a Sharpe ratio that
was null, and a VaR that is missing now. -/
theorem explanations_agree_oneUnit :
    let previous : Snapshot ℚ := ⟨"acct_123", "2026-09-01T12:00:00Z", .number 15000,
      .number 5000, .number (4 / 1000), .number 99, .null⟩
    let current : Snapshot ℚ := ⟨"acct_123", "2026-09-01T12:00:01Z", .number (1499999 / 100),
      .number (499999 / 100), .number (4001 / 1000000), .missing, .number (-3 / 10)⟩
    Agree (Backend.explainSnapshot current (some previous))
      (Dashboard.buildRiskNarrative Dashboard.enUS current (some previous)) := by
  intro previous current
  have hprevious : Published previous :=
    { portfolio_value := ⟨1500000, by norm_num⟩
      pnl := ⟨500000, by norm_num⟩
      volatility := ⟨4000, by norm_num⟩
      volatility_nonneg := fun x hx => by cases hx; norm_num
      var := ⟨9900, by norm_num⟩
      sharpe := trivial }
  have hcurrent : Published current :=
    { portfolio_value := ⟨1499999, by norm_num⟩
      pnl := ⟨499999, by norm_num⟩
      volatility := ⟨4001, by norm_num⟩
      volatility_nonneg := fun x hx => by cases hx; norm_num
      var := trivial
      sharpe := ⟨-3000, by norm_num⟩ }
  refine explanations_agree Dashboard.enUS hcurrent ?_
  intro s hs
  cases hs
  exact hprevious

end TradePulse.Explain
