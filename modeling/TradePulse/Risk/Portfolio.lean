import Mathlib.Algebra.BigOperators.Group.Finset.Basic
import TradePulse.Risk.Positions

/-! # What an account is worth

Cash and positions in exact arithmetic: the seed, what each trade moved, and
each symbol at its last position and its price. `recompute_account` computes
this from the tables, and the metrics of an account always exist. -/
namespace TradePulse.Risk

/-! ## The value of an account -/

section Value

variable (s : RiskStore ℚ) (a : String)

/-- The account has traded. -/
def HasEvents : Prop := ∃ row ∈ s.applied_events, row.account_id = a

instance : Decidable (HasEvents s a) := inferInstanceAs (Decidable (∃ row ∈ _, _))

def rowsFor : List (AppliedEvent ℚ) := s.applied_events.filter (·.account_id = a)

def symbolsOf : Finset String := ((rowsFor s a).map (·.symbol)).toFinset

/-- The last event of a symbol. -/
def lastRow (y : String) : Option (AppliedEvent ℚ) := (rowsOf (a, y) s.applied_events).getLast?

def positionOf (y : String) : ℚ := ((lastRow s a y).map (·.position_after)).getD 0

/-- The latest price, or that of the last trade. -/
def markOf (y : String) : ℚ := (s.getPrice y).getD (((lastRow s a y).bind (·.price)).getD 0)

def portfolioValue (seedCash : ℚ) : ℚ :=
  seedCash + ((rowsFor s a).map (·.cash_delta)).sum + ∑ y ∈ symbolsOf s a, positionOf s a y * markOf s a y

end Value

/-! ## The tables give this value -/

section Latest

variable {F : Type} {rows : List (AppliedEvent F)}

theorem latest_sublist (rows : List (AppliedEvent F)) : (RiskStore.latest rows).Sublist rows := by
  induction rows with
  | nil => exact .refl _
  | cons row rows ih =>
    rw [RiskStore.latest]
    split
    · exact ih.cons row
    · exact ih.cons_cons row

/-- One row for each account and symbol. -/
theorem latest_pairwise (rows : List (AppliedEvent F)) :
    (RiskStore.latest rows).Pairwise fun r r' =>
      ¬ (r'.account_id = r.account_id ∧ r'.symbol = r.symbol) := by
  induction rows with
  | nil => exact List.Pairwise.nil
  | cons row rows ih =>
    rw [RiskStore.latest]
    split
    · exact ih
    · rename_i hlater
      refine List.pairwise_cons.mpr ⟨fun later hmem hpair => hlater ?_, ih⟩
      refine List.any_eq_true.mpr ⟨later, (latest_sublist rows).subset hmem, ?_⟩
      simpa using hpair

theorem latest_of_mem {row : AppliedEvent F} (h : row ∈ rows) :
    ∃ last ∈ RiskStore.latest rows, last.account_id = row.account_id ∧ last.symbol = row.symbol := by
  have hmem : row ∈ rowsOf (row.account_id, row.symbol) rows :=
    List.mem_filter.mpr ⟨h, decide_eq_true rfl⟩
  have hlast := List.getLast?_eq_some_getLast (List.ne_nil_of_mem hmem)
  generalize (rowsOf (row.account_id, row.symbol) rows).getLast _ = last at hlast
  have hpair := of_decide_eq_true (List.mem_filter.mp (List.mem_of_getLast? hlast)).2
  obtain ⟨ha, hy⟩ := Prod.mk.inj hpair
  exact ⟨last, mem_latest.mpr (by rw [ha, hy]; exact hlast), ha, hy⟩

end Latest

section Tables

variable (s : RiskStore ℚ) (a : String)

/-- The last rows of an account, as the query finds them. -/
def latestOf : List (AppliedEvent ℚ) :=
  (RiskStore.latest s.applied_events).filter fun row => some row.account_id = some a

theorem mem_latestOf {row : AppliedEvent ℚ} :
    row ∈ latestOf s a ↔ row.account_id = a ∧ lastRow s a row.symbol = some row := by
  rw [latestOf, List.mem_filter, mem_latest, lastRow, decide_eq_true_eq, Option.some.injEq]
  constructor
  · rintro ⟨hlast, rfl⟩
    exact ⟨rfl, hlast⟩
  · rintro ⟨rfl, hlast⟩
    exact ⟨hlast, rfl⟩

theorem latestOf_symbols : ((latestOf s a).map (·.symbol)).Nodup := by
  refine List.pairwise_map.mpr (((latest_pairwise s.applied_events).filter _).imp_of_mem ?_)
  intro r r' hr hr' hne hsym
  have hacc := ((mem_latestOf s a).mp hr).1
  have hacc' := ((mem_latestOf s a).mp hr').1
  exact hne ⟨hacc'.trans hacc.symm, hsym.symm⟩

theorem latestOf_toFinset : ((latestOf s a).map (·.symbol)).toFinset = symbolsOf s a := by
  ext y
  simp only [symbolsOf, rowsFor, List.mem_toFinset, List.mem_map, List.mem_filter,
    decide_eq_true_eq]
  constructor
  · rintro ⟨row, hrow, rfl⟩
    have hmem := (latest_sublist _).subset (List.mem_of_mem_filter hrow)
    exact ⟨row, ⟨hmem, ((mem_latestOf s a).mp hrow).1⟩, rfl⟩
  · rintro ⟨row, ⟨hrow, rfl⟩, rfl⟩
    obtain ⟨last, hlast, hacc, hsym⟩ := latest_of_mem hrow
    exact ⟨last, List.mem_filter.mpr ⟨hlast, by simp [hacc]⟩, hsym⟩

/-- What `resolved_positions` answers, row by row. -/
def resolve (row : AppliedEvent ℚ) : String × ℚ × ℚ :=
  (row.symbol, row.position_after, (s.getPrice row.symbol).getD (row.price.getD 0))

theorem resolvedPositions_eq : s.resolvedPositions (.str a) =
    .ok (((latestOf s a).insertionSort (·.symbol ≤ ·.symbol)).map (resolve s)) := by
  simp only [RiskStore.resolvedPositions, RiskStore.latestPositions, Json.bindText, bind,
    Except.bind, pure, Except.pure, List.map_map]
  rfl

theorem total_eq_sum (xs : List ℚ) : RiskStore.total xs = xs.sum := by
  cases xs <;> rfl

theorem marketValue_eq :
    marketValue (((latestOf s a).insertionSort (·.symbol ≤ ·.symbol)).map (resolve s)) =
      ∑ y ∈ symbolsOf s a, positionOf s a y * markOf s a y := by
  show List.sum _ = _
  rw [List.map_map,
    ((List.perm_insertionSort (fun r r' => r.symbol ≤ r'.symbol) (latestOf s a)).map _).sum_eq,
    ← latestOf_toFinset, List.sum_toFinset _ (latestOf_symbols s a), List.map_map]
  refine congrArg List.sum (List.map_congr_left fun row hrow => ?_)
  have hlast := ((mem_latestOf s a).mp hrow).2
  simp only [Function.comp_apply, resolve, positionOf, markOf, hlast, Option.map_some,
    Option.getD_some, Option.bind_some]

theorem accountCash_rows (seedCash : ℚ) : s.accountCash (.str a) seedCash =
    .ok (seedCash + ((rowsFor s a).map (·.cash_delta)).sum) := by
  simp only [RiskStore.accountCash, RiskStore.accountRows, Json.bindText, bind, Except.bind, pure,
    Except.pure, total_eq_sum, rowsFor, Option.some.injEq]

/-- **Cash and market value, as the code computes them.** -/
theorem portfolioValue_eq (seedCash : ℚ) : ∃ cash positions,
    s.accountCash (.str a) seedCash = .ok cash ∧ s.resolvedPositions (.str a) = .ok positions ∧
      cash + marketValue positions = portfolioValue s a seedCash :=
  ⟨_, _, accountCash_rows s a seedCash, resolvedPositions_eq s a, by
    rw [marketValue_eq, portfolioValue]⟩

/-- An account with events has a position to value. -/
theorem resolvedPositions_ne_nil (h : HasEvents s a) :
    ∃ positions, s.resolvedPositions (.str a) = .ok positions ∧ positions ≠ [] := by
  obtain ⟨row, hrow, rfl⟩ := h
  obtain ⟨last, hlast, hacc, -⟩ := latest_of_mem hrow
  have hmem : last ∈ latestOf s row.account_id :=
    List.mem_filter.mpr ⟨hlast, by simp [hacc]⟩
  exact ⟨_, resolvedPositions_eq s _,
    List.ne_nil_of_mem (List.mem_map_of_mem ((List.mem_insertionSort _).mpr hmem))⟩

end Tables

/-! ## Metrics in exact arithmetic -/

theorem mean_exact {xs : List ℚ} (h : xs ≠ []) : ∃ m, PyFloat.mean xs = .ok m :=
  ⟨_, if_neg h⟩

theorem pstdev_exact {xs : List ℚ} (h : xs ≠ []) : ∃ m, PyFloat.pstdev xs = .ok m := by
  obtain ⟨m, hm⟩ := mean_exact h
  obtain ⟨v, hv⟩ := mean_exact (List.map_eq_nil_iff.not.mpr h : (xs.map fun x => (x - m) * (x - m)) ≠ [])
  refine ⟨Rat.sqrt v, ?_⟩
  change pstdev xs = _
  rw [pstdev, show mean xs = .ok m from hm]
  simp only [bind, Except.bind, show mean (xs.map fun x => (x - m) * (x - m)) = .ok v from hv]
  rfl

theorem historyMetrics_exact (value : ℚ) (pvReturns : List ℚ) :
    ∃ m, historyMetrics value pvReturns = .ok m := by
  by_cases hlen : pvReturns.length > 1
  · have hne : pvReturns ≠ [] := List.ne_nil_of_length_pos (by omega)
    obtain ⟨vol, hvol⟩ := pstdev_exact hne
    obtain ⟨avg, havg⟩ := mean_exact hne
    simp only [historyMetrics, if_pos hlen, hvol, havg, bind, Except.bind, pure, Except.pure]
    split <;> exact ⟨_, rfl⟩
  · -- a volatility of zero has no Sharpe ratio
    have hvol : ¬ PyFloat.lt (0 : ℚ) 0 = true := by simp [PyFloat.lt]
    simp only [historyMetrics, if_neg hlen, bind, Except.bind, pure, Except.pure, if_neg hvol]
    exact ⟨_, rfl⟩

theorem computeMetrics_exact (cash : ℚ) (positions : List (String × ℚ × ℚ)) (seedCash : ℚ)
    (pvReturns : List ℚ) : ∃ m, computeMetrics cash positions seedCash pvReturns = .ok m ∧
      m.pnl = PyFloat.round (cash + marketValue positions - seedCash) 2 ∧
      m.portfolio_value = PyFloat.round (cash + marketValue positions) 2 := by
  obtain ⟨m, hm⟩ := historyMetrics_exact (cash + marketValue positions) pvReturns
  exact ⟨_, by rw [computeMetrics, hm]; rfl, rfl, rfl⟩

/-- No metric overflows, and none is NaN. -/
theorem valued_exact (config : Config ℚ) (s : RiskStore ℚ) {a : Json ℚ} {t : Option String}
    (h : a.bindText = .ok t) : Valued config s a := by
  suffices hm : ∃ m, metricsOf config s a = .ok m by
    obtain ⟨m, hm⟩ := hm
    exact ⟨m, hm, rfl⟩
  simp only [metricsOf, RiskStore.accountCash, RiskStore.accountRows, RiskStore.resolvedPositions,
    RiskStore.latestPositions, RiskStore.pvReturns, RiskStore.pvWindow, h, bind, Except.bind, pure,
    Except.pure]
  exact (computeMetrics_exact _ _ _ _).imp fun _ hm => hm.1

end TradePulse.Risk
