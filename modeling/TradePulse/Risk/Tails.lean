import TradePulse.Risk.Windows
import TradePulse.Risk.Exact
import Mathlib.Data.List.Induction
import Mathlib.Logic.Function.Basic

/-! # The newest tail of each key

Calls of `append_price` and `append_pv` with any window sizes. A table of
windows is, key by key, a map from which each call takes one window and leaves
its newest part. -/
namespace TradePulse.Risk.Tails
open RiskStore (kept appendRow)

section Calls

variable {F : Type} [PyFloat F]

/-- A call of `append_price` or of `append_pv`. -/
structure Append (F : Type) where
  key : String
  value : F
  windowSize : Int
  time : Option String

def timeJson : Option String → Json F
  | none => .null
  | some t => .str t

end Calls

/-! ## Tables of windows -/

section Rows

variable {α : Type} {sameKey : α → Bool} {row : α} {rows : List α} {windowSize : Int}

theorem lastN_of_length_le {n : Nat} {xs : List α} (h : xs.length ≤ n) :
    RiskStore.lastN n xs = xs := by
  rw [RiskStore.lastN, Nat.sub_eq_zero_of_le h, List.drop_zero]

theorem length_lastN (n : Nat) (xs : List α) :
    (RiskStore.lastN n xs).length = min xs.length n := by
  rw [RiskStore.lastN, List.length_drop]
  omega

/-- Rows have 64-bit ids, so a limit that is refused would have spared them all. -/
theorem appendRow_filter (sameKey : α → Bool) (hrow : sameKey row = true)
    (hids : rows.length < 2 ^ 63) :
    (appendRow sameKey row windowSize rows).2.filter sameKey =
      RiskStore.lastN (kept windowSize) (rows.filter sameKey ++ [row]) := by
  have hsnoc : (rows ++ [row]).filter sameKey = rows.filter sameKey ++ [row] := by
    rw [List.filter_append, List.filter_cons_of_pos hrow, List.filter_nil]
  rw [appendRow]
  split
  · rw [RiskStore.evict_filter, hsnoc]
  · rename_i hlarge
    have hlen : (rows.filter sameKey ++ [row]).length ≤ kept windowSize := by
      have hle := List.length_filter_le sameKey rows
      rw [List.length_append, List.length_singleton]
      omega
    rw [hsnoc, lastN_of_length_le hlen]

theorem appendRow_filter_other {other : α → Bool}
    (h : ∀ r, other r = true → sameKey r = false) (hrow : sameKey row = true) :
    (appendRow sameKey row windowSize rows).2.filter other = rows.filter other := by
  have hout : ¬ other row = true := by
    intro hother
    rw [h row hother] at hrow
    cases hrow
  have hsnoc : (rows ++ [row]).filter other = rows.filter other := by
    rw [List.filter_append, List.filter_cons_of_neg hout, List.filter_nil, List.append_nil]
  rw [appendRow]
  split
  · rw [RiskStore.evict_filter_other h, hsnoc]
  · exact hsnoc

theorem dropFirst_length_le (p : α → Bool) (n : Nat) (xs : List α) :
    (RiskStore.dropFirst p n xs).length ≤ xs.length := by
  induction xs generalizing n with
  | nil => cases n <;> exact Nat.le_refl _
  | cons x xs ih =>
    cases n with
    | zero => exact Nat.le_refl _
    | succ n =>
      rw [RiskStore.dropFirst]
      split
      · exact Nat.le_succ_of_le (ih n)
      · exact Nat.succ_le_succ (ih (n + 1))

theorem appendRow_length_le (sameKey : α → Bool) (row : α) (windowSize : Int) (rows : List α) :
    (appendRow sameKey row windowSize rows).2.length ≤ rows.length + 1 := by
  rw [appendRow]
  split
  · have hle := dropFirst_length_le sameKey
      ((rows ++ [row]).countP sameKey - kept windowSize) (rows ++ [row])
    rwa [List.length_append, List.length_singleton] at hle
  · rw [List.length_append, List.length_singleton]

end Rows

/-! ## Runs -/

/-- What one call makes of the windows of all keys. -/
def retain (windows : String → List ℚ) (c : Append ℚ) : String → List ℚ :=
  Function.update windows c.key
    (RiskStore.lastN (kept c.windowSize) (windows c.key ++ [c.value]))

/-- The values of the calls for one key. -/
def appended (calls : List (Append ℚ)) (key : String) : List ℚ :=
  (calls.filter (·.key = key)).map (·.value)

theorem appended_snoc (calls : List (Append ℚ)) (c : Append ℚ) (key : String) :
    appended (calls ++ [c]) key = appended calls key ++ if c.key = key then [c.value] else [] := by
  rw [appended, List.filter_append, List.map_append]
  by_cases h : c.key = key
  · rw [List.filter_cons_of_pos (by simpa using h), if_pos h]
    rfl
  · rw [List.filter_cons_of_neg (by simpa using h), if_neg h]
    rfl

theorem foldl_retain {windows : String → List ℚ} {key : String} {w : Int}
    (hnil : windows key = []) {calls : List (Append ℚ)}
    (hw : ∀ c ∈ calls, c.key = key → c.windowSize = w) :
    calls.foldl retain windows key = RiskStore.lastN (kept w) (appended calls key) := by
  induction calls using List.reverseRecOn with
  | nil =>
    show windows key = [].drop _
    rw [hnil, List.drop_nil]
  | append_singleton calls c ih =>
    have hih := ih fun d hd => hw d (List.mem_append_left _ hd)
    rw [List.foldl_append, appended_snoc]
    show retain (calls.foldl retain windows) c key = _
    by_cases hkey : c.key = key
    · have hsize : c.windowSize = w := hw c (List.mem_append_right _ (List.mem_singleton_self c)) hkey
      rw [retain, if_pos hkey, hkey, Function.update_self, hih, hsize]
      exact RiskStore.lastN_lastN_snoc ..
    · rw [retain, if_neg hkey, List.append_nil, Function.update_of_ne (Ne.symm hkey), hih]

/-- Division that raises where Python's does. -/
def divide (x y : ℚ) : Option ℚ := if y = 0 then none else some (x / y)

/-- The pairs of neighbours that a return is made of. -/
def pairs (window : List ℚ) : List (ℚ × ℚ) := (window.zip window.tail).filter (·.1 ≠ 0)

theorem pairs_length_le (window : List ℚ) : (pairs window).length ≤ window.length - 1 := by
  refine (List.length_filter_le ..).trans ?_
  rw [List.length_zip, List.length_tail]
  exact Nat.min_le_right ..

theorem simpleReturns_eq (window : List ℚ) :
    RiskStore.simpleReturns window = (pairs window).map fun p => (p.2 - p.1) / p.1 := by
  rw [RiskStore.simpleReturns, pairs]
  induction window.zip window.tail with
  | nil => rfl
  | cons p ps ih =>
    by_cases hp : p.1 = 0
    · rw [List.filter_cons_of_neg (p := fun q : ℚ × ℚ => q.1 ≠ 0) (by simpa using hp), ← ih]
      exact List.filterMap_cons_none (if_pos (decide_eq_true hp))
    · rw [List.filter_cons_of_pos (p := fun q : ℚ × ℚ => q.1 ≠ 0) (by simpa using hp),
        List.map_cons, ← ih]
      exact List.filterMap_cons_some (if_neg (by simpa [PyFloat.isZero] using hp))

theorem mapM_divide {ps : List (ℚ × ℚ)} (h : ∀ p ∈ ps, p.1 ≠ 0) :
    ps.mapM (fun p => divide (p.2 - p.1) p.1) = some (ps.map fun p => (p.2 - p.1) / p.1) := by
  induction ps with
  | nil => rfl
  | cons p ps ih =>
    have hp : divide (p.2 - p.1) p.1 = some ((p.2 - p.1) / p.1) :=
      if_neg (h p List.mem_cons_self)
    rw [List.mapM_cons, hp, ih fun q hq => h q (List.mem_cons_of_mem _ hq)]
    rfl

theorem simpleReturns_divides (window : List ℚ) :
    (pairs window).mapM (fun p => divide (p.2 - p.1) p.1) =
      some (RiskStore.simpleReturns window) := by
  rw [simpleReturns_eq]
  apply mapM_divide
  intro p hp
  exact of_decide_eq_true (List.mem_filter.mp hp).2

theorem simpleReturns_length_le (window : List ℚ) :
    (RiskStore.simpleReturns window).length ≤ window.length - 1 := by
  rw [simpleReturns_eq, List.length_map]
  exact pairs_length_le window

/-! ## The two tables -/

/-- The methods of one table of rolling windows. -/
structure Table where
  rowCount : RiskStore ℚ → Nat
  append : RiskStore ℚ → Append ℚ → Except PyError Unit × RiskStore ℚ
  window : RiskStore ℚ → String → Except PyError (List ℚ)
  historyLen : RiskStore ℚ → String → Except PyError Nat
  returns : RiskStore ℚ → String → Except PyError (List ℚ)

/-- What the connection sees after the calls. -/
def Table.after (T : Table) (s : RiskStore ℚ) (calls : List (Append ℚ)) : RiskStore ℚ :=
  calls.foldl (fun s c => (T.append s c).2) s

/-- A window as the methods show it: the returns are the quotients of its
neighbours, and no division raises. -/
structure Shows (T : Table) (s : RiskStore ℚ) (key : String) (values : List ℚ) : Prop where
  window : T.window s key = .ok values
  historyLen : T.historyLen s key = .ok values.length
  returns : ∃ rs, T.returns s key = .ok rs ∧
    (pairs values).mapM (fun p => divide (p.2 - p.1) p.1) = some rs ∧
    rs.length ≤ values.length - 1

/-- `windows` are the windows of the table, and a call does to them what
`retain` does. Rows have 64-bit ids, so no table holds more. -/
structure KeepsTail (T : Table) (windows : RiskStore ℚ → String → List ℚ) : Prop where
  shows : ∀ s key, Shows T s key (windows s key)
  step : ∀ s c, T.rowCount s < 2 ^ 63 → windows (T.append s c).2 = retain (windows s) c
  others : ∀ s c key, key ≠ c.key → windows (T.append s c).2 key = windows s key
  raises : ∀ s c, (T.append s c).1 =
    if kept c.windowSize < 2 ^ 63 then .ok () else .error .OverflowError
  rowCount : ∀ s c, T.rowCount (T.append s c).2 ≤ T.rowCount s + 1
  fresh : T.rowCount .empty = 0 ∧ ∀ key, windows .empty key = []

theorem others_of_rows {α : Type} (keyOf : α → String) (rows : List α) (row : α)
    (c : Append ℚ) (hkey : keyOf row = c.key) {key : String} (h : key ≠ c.key) :
    (appendRow (keyOf · = c.key) row c.windowSize rows).2.filter (keyOf · = key) =
      rows.filter (keyOf · = key) := by
  refine appendRow_filter_other ?_ (decide_eq_true hkey)
  intro r hr
  rw [of_decide_eq_true hr]
  exact decide_eq_false h

/-- A table whose rows, filtered by their keys, are the windows. -/
theorem retain_of_rows {α : Type} (keyOf : α → String) (value : α → ℚ) (rows : List α)
    (row : α) (c : Append ℚ) (hkey : keyOf row = c.key) (hvalue : value row = c.value)
    (hids : rows.length < 2 ^ 63) (key : String) :
    ((appendRow (keyOf · = c.key) row c.windowSize rows).2.filter (keyOf · = key)).map value =
      retain (fun k => (rows.filter (keyOf · = k)).map value) c key := by
  rw [retain]
  by_cases h : key = c.key
  · rw [h, Function.update_self,
      appendRow_filter (keyOf · = c.key) (decide_eq_true hkey) hids, RiskStore.lastN_map,
      List.map_append, List.map_singleton, hvalue]
  · rw [Function.update_of_ne h, others_of_rows keyOf rows row c hkey h]

theorem appendRow_raises {α : Type} (sameKey : α → Bool) (row : α) (windowSize : Int)
    (rows : List α) : (appendRow sameKey row windowSize rows).1 =
      if kept windowSize < 2 ^ 63 then .ok () else .error .OverflowError := by
  rw [appendRow]
  split <;> rfl

def prices : Table where
  rowCount s := s.price_history.length
  append s c := s.appendPrice (.str c.key) c.value c.windowSize (timeJson c.time)
  window s symbol := .ok (s.priceWindow symbol)
  historyLen s symbol := .ok (s.historyLen symbol)
  returns s symbol := .ok (s.returns symbol)

theorem prices_append (s : RiskStore ℚ) (c : Append ℚ) : prices.append s c =
    let a := appendRow (·.symbol = c.key) ⟨c.key, c.value, c.time⟩ c.windowSize s.price_history
    (a.1, { s with price_history := a.2 }) := by
  obtain ⟨key, value, windowSize, time⟩ := c
  cases time <;> rfl

theorem prices_keepsTail : KeepsTail prices RiskStore.priceWindow where
  shows s symbol :=
    { window := rfl
      historyLen := by
        show Except.ok (s.historyLen symbol) = _
        rw [RiskStore.historyLen, RiskStore.priceWindow, List.length_map,
          List.countP_eq_length_filter]
      returns := ⟨_, rfl, simpleReturns_divides _, simpleReturns_length_le _⟩ }
  step s c hids := by
    rw [prices_append]
    exact funext <| retain_of_rows PriceTick.symbol PriceTick.price s.price_history
      ⟨c.key, c.value, c.time⟩ c rfl rfl hids
  others s c symbol h := by
    rw [prices_append]
    exact congrArg (List.map _) <|
      others_of_rows PriceTick.symbol s.price_history ⟨c.key, c.value, c.time⟩ c rfl h
  raises s c := by
    rw [prices_append]
    exact appendRow_raises ..
  rowCount s c := by
    rw [prices_append]
    exact appendRow_length_le ..
  fresh := ⟨rfl, fun _ => rfl⟩

def portfolioValues : Table where
  rowCount s := s.pv_history.length
  append s c := s.appendPv (.str c.key) c.value c.windowSize (timeJson c.time)
  window s account := s.pvWindow (.str account)
  historyLen s account := s.pvHistoryLen (.str account)
  returns s account := s.pvReturns (.str account)

theorem portfolioValues_append (s : RiskStore ℚ) (c : Append ℚ) : portfolioValues.append s c =
    let a := appendRow (·.account_id = c.key) ⟨c.key, c.value, c.time⟩ c.windowSize s.pv_history
    (a.1, { s with pv_history := a.2 }) := by
  obtain ⟨key, value, windowSize, time⟩ := c
  cases time <;> rfl

/-- `pv_window` of an account id that is a text. -/
def pvWindowOf (s : RiskStore ℚ) (account : String) : List ℚ :=
  (s.pv_history.filter (·.account_id = account)).map (·.pv)

theorem pvWindow_str (s : RiskStore ℚ) (account : String) :
    s.pvWindow (.str account) = .ok (pvWindowOf s account) := by
  simp only [RiskStore.pvWindow, Json.bindText, bind, Except.bind, pure, Except.pure,
    Option.some.injEq, pvWindowOf]

theorem portfolioValues_keepsTail : KeepsTail portfolioValues pvWindowOf where
  shows s account :=
    { window := pvWindow_str s account
      historyLen := by
        show s.pvHistoryLen (.str account) = _
        simp only [RiskStore.pvHistoryLen, Json.bindText, bind, Except.bind, pure, Except.pure,
          Option.some.injEq, pvWindowOf, List.length_map, List.countP_eq_length_filter]
      returns := by
        refine ⟨_, ?_, simpleReturns_divides _, simpleReturns_length_le _⟩
        show s.pvReturns (.str account) = _
        rw [RiskStore.pvReturns, pvWindow_str]
        rfl }
  step s c hids := by
    rw [portfolioValues_append]
    exact funext <| retain_of_rows PvSample.account_id PvSample.pv s.pv_history
      ⟨c.key, c.value, c.time⟩ c rfl rfl hids
  others s c account h := by
    rw [portfolioValues_append]
    exact congrArg (List.map _) <|
      others_of_rows PvSample.account_id s.pv_history ⟨c.key, c.value, c.time⟩ c rfl h
  raises s c := by
    rw [portfolioValues_append]
    exact appendRow_raises ..
  rowCount s c := by
    rw [portfolioValues_append]
    exact appendRow_length_le ..
  fresh := ⟨rfl, fun _ => rfl⟩

/-! ## Sequences of calls -/

namespace KeepsTail

variable {T : Table} {windows : RiskStore ℚ → String → List ℚ} (h : KeepsTail T windows)

include h

theorem rowCount_after (calls : List (Append ℚ)) :
    T.rowCount (T.after .empty calls) ≤ calls.length := by
  induction calls using List.reverseRecOn with
  | nil => exact h.fresh.1.le
  | append_singleton calls c ih =>
    rw [Table.after, List.foldl_append, List.length_append]
    exact (h.rowCount _ c).trans (Nat.succ_le_succ ih)

/-- Whatever the order of the calls, the windows are those of `retain`. -/
theorem after_eq {calls : List (Append ℚ)} (hids : calls.length < 2 ^ 63) :
    windows (T.after .empty calls) = calls.foldl retain (fun _ => []) := by
  induction calls using List.reverseRecOn with
  | nil => exact funext h.fresh.2
  | append_singleton calls c ih =>
    rw [List.length_append, List.length_singleton] at hids
    have hrows : T.rowCount (T.after .empty calls) < 2 ^ 63 :=
      (h.rowCount_after calls).trans_lt (by omega)
    rw [Table.after, List.foldl_append, List.foldl_append]
    show windows (T.append (T.after .empty calls) c).2 = retain (calls.foldl retain _) c
    rw [h.step _ c hrows, ih (by omega)]

end KeepsTail

/-- The window of a key is the newest of these values, as many as the window
size asks for, and there are never more returns than that. -/
structure NewestOf (T : Table) (s : RiskStore ℚ) (key : String) (values : List ℚ) (w : Int) :
    Prop extends Shows T s key (RiskStore.lastN (kept w) values) where
  length : T.historyLen s key = .ok (min values.length ((max w 0).toNat + 1))
  short : ∀ rs, T.returns s key = .ok rs → rs.length ≤ (max w 0).toNat

theorem Shows.newestOf {T : Table} {s : RiskStore ℚ} {key : String} {values : List ℚ} {w : Int}
    (h : Shows T s key (RiskStore.lastN (kept w) values)) : NewestOf T s key values w where
  toShows := h
  length := by
    have hlen := h.historyLen
    rwa [length_lastN, kept] at hlen
  short rs hrs := by
    obtain ⟨rs', hrs', -, hlen⟩ := h.returns
    rw [hrs] at hrs'
    cases hrs'
    rw [length_lastN, kept] at hlen
    omega

structure NewestTail (T : Table) : Prop where
  /-- A call keeps the newest of its own key's window and of its value. -/
  call : ∀ s c, T.rowCount s < 2 ^ 63 → ∃ values, T.window s c.key = .ok values ∧
    NewestOf T (T.append s c).2 c.key (values ++ [c.value]) c.windowSize
  others : ∀ s c key, key ≠ c.key → T.window (T.append s c).2 key = T.window s key
  /-- A limit that SQLite has no integer for raises once the row is in. -/
  raises : ∀ s c, (T.append s c).1 =
    if kept c.windowSize < 2 ^ 63 then .ok () else .error .OverflowError
  /-- With one window size for a key, however the calls for other keys interleave. -/
  run : ∀ calls key w, calls.length < 2 ^ 63 →
    (∀ c ∈ calls, c.key = key → c.windowSize = w) →
    NewestOf T (T.after .empty calls) key (appended calls key) w

theorem KeepsTail.newestTail {T : Table} {windows : RiskStore ℚ → String → List ℚ}
    (h : KeepsTail T windows) : NewestTail T where
  call s c hids := by
    refine ⟨windows s c.key, (h.shows s c.key).window, Shows.newestOf ?_⟩
    have hshows := h.shows (T.append s c).2 c.key
    rwa [h.step s c hids, retain, Function.update_self] at hshows
  others s c key hkey := by
    rw [(h.shows _ key).window, (h.shows _ key).window, h.others s c key hkey]
  raises := h.raises
  run calls key w hids hw := by
    have hshows := h.shows (T.after .empty calls) key
    rw [h.after_eq hids, foldl_retain rfl hw] at hshows
    exact hshows.newestOf

/-- The rolling windows of prices and of portfolio values. -/
theorem rolling_windows : NewestTail prices ∧ NewestTail portfolioValues :=
  ⟨prices_keepsTail.newestTail, portfolioValues_keepsTail.newestTail⟩

/-- Window sizes that shrink, grow and turn negative. -/
example : let calls : List (Append ℚ) := [⟨"A", 1, 3, none⟩, ⟨"A", 2, 3, none⟩,
      ⟨"B", 9, 0, none⟩, ⟨"A", 3, 1, none⟩, ⟨"A", 4, 5, none⟩, ⟨"B", 8, -7, none⟩]
    (prices.after .empty calls).priceWindow "A" = [2, 3, 4] ∧
      (prices.after .empty calls).priceWindow "B" = [8] := by
  decide +kernel

end TradePulse.Risk.Tails
