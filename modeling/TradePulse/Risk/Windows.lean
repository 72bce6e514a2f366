import TradePulse.Risk.Store

/-! # Rolling windows

A method that appends to a rolling window keeps the last rows of one key and
leaves the rows of all others where they are. -/
namespace TradePulse.Risk.RiskStore

section Evict

variable {α : Type} {p q : α → Bool}

theorem dropFirst_filter (n : Nat) (rows : List α) :
    (dropFirst p n rows).filter p = (rows.filter p).drop n := by
  induction rows generalizing n with
  | nil => cases n <;> rfl
  | cons row rows ih =>
    cases n with
    | zero => rfl
    | succ n =>
      rw [dropFirst]
      split
      · rename_i h
        rw [ih, List.filter_cons_of_pos h, List.drop_succ_cons]
      · rename_i h
        rw [List.filter_cons_of_neg h, ih, List.filter_cons_of_neg h]

/-- Rows that are not counted stay. -/
theorem dropFirst_filter_other (h : ∀ row, q row = true → p row = false) (n : Nat)
    (rows : List α) : (dropFirst p n rows).filter q = rows.filter q := by
  induction rows generalizing n with
  | nil => cases n <;> rfl
  | cons row rows ih =>
    cases n with
    | zero => rfl
    | succ n =>
      rw [dropFirst]
      split
      · rename_i hp
        have hq : ¬ q row = true := fun hq => by rw [h row hq] at hp; cases hp
        rw [ih, List.filter_cons_of_neg hq]
      · rw [List.filter_cons, List.filter_cons, ih]

/-- The last `n` elements. -/
def lastN (n : Nat) (xs : List α) : List α := xs.drop (xs.length - n)

theorem evict_filter (keep : Nat) (rows : List α) :
    (evict p keep rows).filter p = lastN keep (rows.filter p) := by
  rw [evict, dropFirst_filter, lastN, List.countP_eq_length_filter]

theorem evict_filter_other (h : ∀ row, q row = true → p row = false) (keep : Nat)
    (rows : List α) : (evict p keep rows).filter q = rows.filter q :=
  dropFirst_filter_other h _ rows

/-- The newest element is kept. -/
theorem lastN_snoc (n : Nat) (xs : List α) (x : α) :
    lastN (n + 1) (xs ++ [x]) = lastN n xs ++ [x] := by
  have hlen : (xs ++ [x]).length - (n + 1) = xs.length - n := by
    rw [List.length_append, List.length_singleton]
    omega
  rw [lastN, hlen, List.drop_append_of_le_length (Nat.sub_le ..), lastN]

/-- What a window has lost stays lost. -/
theorem lastN_lastN_snoc (n : Nat) (xs : List α) (x : α) :
    lastN (n + 1) (lastN (n + 1) xs ++ [x]) = lastN (n + 1) (xs ++ [x]) := by
  rw [lastN_snoc, lastN_snoc]
  simp only [lastN, List.length_drop, List.drop_drop]
  congr 2
  omega

theorem lastN_map {β : Type} (f : α → β) (n : Nat) (xs : List α) :
    (lastN n xs).map f = lastN n (xs.map f) := by
  rw [lastN, lastN, List.map_drop, List.length_map]

theorem mem_evict_snoc {keep : Nat} {rows : List α} {row : α} (h : p row = true) :
    row ∈ evict p (keep + 1) (rows ++ [row]) := by
  suffices hmem : row ∈ (evict p (keep + 1) (rows ++ [row])).filter p from
    (List.mem_filter.mp hmem).1
  rw [evict_filter, List.filter_append, List.filter_cons_of_pos h, List.filter_nil, lastN_snoc]
  exact List.mem_append_right _ (List.mem_singleton_self row)

end Evict

variable {F : Type} [PyFloat F]

/-- The sizes whose limit SQLite has an integer for. -/
theorem kept_lt_iff {windowSize : Int} : kept windowSize < 2 ^ 63 ↔ windowSize < 2 ^ 63 - 1 := by
  rw [kept]
  omega

/-! ## Writing a price -/

theorem bindReal_of_not_nan {x : F} (h : PyFloat.isNaN x = false) : bindReal x = some x := by
  rw [bindReal, if_neg (by rw [h]; nofun)]

theorem bindReal_of_nan {x : F} (h : PyFloat.isNaN x = true) : bindReal x = none := by
  rw [bindReal, if_pos h]

section Price

variable (s : RiskStore F) {symbol tickTime : Json F} {price : F} {y? : Option String} {y : String}
  {t : Option String}

theorem upsertPrice_ok (hy : symbol.bindText = .ok y?) (hp : PyFloat.isNaN price = false) :
    ∃ s', s.upsertPrice symbol price = .ok ((), s') ∧ (y?, price) ∈ s'.price_cache ∧
      s' = { s with price_cache := s'.price_cache } := by
  simp only [upsertPrice, hy, bindReal_of_not_nan hp, bind, Except.bind]
  split
  · rename_i h
    obtain ⟨row, hrow, hkey⟩ := List.any_eq_true.mp h.2
    refine ⟨_, rfl, List.mem_map.mpr ⟨row, hrow, ?_⟩, rfl⟩
    have hkey := of_decide_eq_true hkey
    rw [if_pos hkey, hkey]
  · exact ⟨_, rfl, List.mem_append_right _ (List.mem_singleton_self _), rfl⟩

theorem upsertPrice_nan (symbol : Json F) (hp : PyFloat.isNaN price = true) :
    ∃ e, s.upsertPrice symbol price = .error e := by
  rw [upsertPrice]
  cases symbol.bindText with
  | error e => exact ⟨e, rfl⟩
  | ok y? =>
    simp only [bind, Except.bind, bindReal_of_nan hp]
    exact ⟨.IntegrityError, rfl⟩

theorem priceRow_ok (hy : symbol.bindText = .ok (some y)) (ht : tickTime.bindText = .ok t)
    (hp : PyFloat.isNaN price = false) : priceRow symbol price tickTime = .ok ⟨y, price, t⟩ := by
  simp only [priceRow, hy, ht, bindReal_of_not_nan hp, bind, Except.bind]
  rfl

/-- Only a text and a time that binds are inserted. -/
theorem priceRow_error (price : F) (h : ¬ ((∃ y, symbol.bindText = .ok (some y)) ∧
    ∃ t, tickTime.bindText = .ok t)) : ∃ e, priceRow symbol price tickTime = .error e := by
  rw [priceRow]
  cases hy : symbol.bindText with
  | error e => exact ⟨e, rfl⟩
  | ok y? =>
    cases ht : tickTime.bindText with
    | error e => exact ⟨e, rfl⟩
    | ok t =>
      cases y? with
      | none => exact ⟨.IntegrityError, rfl⟩
      | some y => exact absurd ⟨⟨y, hy⟩, t, ht⟩ h

theorem appendPrice_ok {windowSize : Int} {row : PriceTick F} (hw : windowSize < 2 ^ 63 - 1)
    (hrow : priceRow symbol price tickTime = .ok row) :
    ∃ s', committed (s.appendPrice symbol price windowSize tickTime) = .ok ((), s') ∧
      row ∈ s'.price_history ∧ s'.price_cache = s.price_cache := by
  simp only [appendPrice, hrow, appendRow, if_pos (kept_lt_iff.mpr hw)]
  exact ⟨_, rfl, mem_evict_snoc (decide_eq_true rfl), rfl⟩

/-- What a call that returns has written. -/
theorem appendPrice_some {windowSize : Int} {u : Unit} {s' : RiskStore F}
    (h : committed (s.appendPrice symbol price windowSize tickTime) = .ok (u, s')) :
    windowSize < 2 ^ 63 - 1 ∧ ∃ row, priceRow symbol price tickTime = .ok row ∧
      s' = { s with
        price_history :=
          evict (·.symbol = row.symbol) (kept windowSize) (s.price_history ++ [row]) } := by
  rw [appendPrice] at h
  cases hrow : priceRow symbol price tickTime with
  | error e => rw [hrow] at h; cases h
  | ok row =>
    simp only [hrow, appendRow] at h
    split at h
    · cases h
      exact ⟨kept_lt_iff.mp ‹_›, row, rfl, rfl⟩
    · cases h

/-- Nothing is committed of a row that does not bind or a limit that is refused. -/
theorem appendPrice_error (price : F) {windowSize : Int} (h : ¬ (windowSize < 2 ^ 63 - 1 ∧
    (∃ y, symbol.bindText = .ok (some y)) ∧ ∃ t, tickTime.bindText = .ok t)) :
    ∃ e, committed (s.appendPrice symbol price windowSize tickTime) = .error e := by
  cases hrow : priceRow symbol price tickTime with
  | error e => exact ⟨e, by simp only [appendPrice, hrow]; rfl⟩
  | ok row =>
    have hbind : (∃ y, symbol.bindText = .ok (some y)) ∧ ∃ t, tickTime.bindText = .ok t := by
      by_contra hbind
      obtain ⟨e, he⟩ := priceRow_error price hbind
      rw [he] at hrow
      cases hrow
    have hw : ¬ kept windowSize < 2 ^ 63 := fun hw => h ⟨kept_lt_iff.mp hw, hbind⟩
    exact ⟨.OverflowError, by simp only [appendPrice, hrow, appendRow, if_neg hw]; rfl⟩

end Price

/-! ## Writing a portfolio value -/

section Pv

variable (s : RiskStore F) {accountId computedAt : Json F} {pv : F} {windowSize : Int}
  {row : PvSample F} (hrow : pvRow accountId pv computedAt = .ok row)

include hrow

theorem appendPv_ok (hw : windowSize < 2 ^ 63 - 1) :
    committed (s.appendPv accountId pv windowSize computedAt) = .ok ((),
      { s with
        pv_history :=
          evict (·.account_id = row.account_id) (kept windowSize) (s.pv_history ++ [row]) }) := by
  simp only [appendPv, hrow, appendRow, if_pos (kept_lt_iff.mpr hw)]
  rfl

theorem appendPv_error (hlarge : ¬ windowSize < 2 ^ 63 - 1) :
    committed (s.appendPv accountId pv windowSize computedAt) = .error .OverflowError := by
  simp only [appendPv, hrow, appendRow, if_neg (mt kept_lt_iff.mp hlarge)]
  rfl

end Pv

end TradePulse.Risk.RiskStore
