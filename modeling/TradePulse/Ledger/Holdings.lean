import TradePulse.Ledger.Books
import TradePulse.Ledger.Reads
import Mathlib.Algebra.BigOperators.Ring.List
import Mathlib.Algebra.Order.BigOperators.Group.List

/-! # The position shown is the position enforced

Compliance sums the posted rows of one account and symbol; the positions
endpoint groups all of them and drops the groups that come to zero; the history
joins them with the journal. The three agree on every content of the tables in
which a trade has a positive quantity and a journal entry a cause of its own. -/
namespace TradePulse.Ledger
open TradePulse.Core TradePulse.Core.Runs TradePulse.Core.Transactions

/-! ## Statement -/

def TradeResultDto.signedQuantity (r : TradeResultDto) : BigDecimal :=
  if r.side = "BUY" then r.quantity else -r.quantity

/-- The posted trades of an account, as its history lists them, in one symbol. -/
def Db.postedHistory (db : Db) (accountId symbol : String) : List TradeResultDto :=
  (db.history (some accountId) (some "posted")).filter (·.symbol = symbol)

/-- The purchases among them. -/
def Db.purchases (db : Db) (accountId symbol : String) : List TradeResultDto :=
  (db.postedHistory accountId symbol).filter (·.side = "BUY")

def totalQuantity (rows : List TradeResultDto) : BigDecimal := (rows.map (·.quantity)).sum

/-- The mean of the prices, weighted with the quantities; zero of no rows. -/
structure IsAverage (rows : List TradeResultDto) (avg : BigDecimal) : Prop where
  none : rows = [] → avg = 0
  weight : rows ≠ [] → 0 < totalQuantity rows
  mean : avg * totalQuantity rows = (rows.map fun r => r.quantity * r.price).sum
  between : ∀ low ∈ (rows.map (·.price)).min?, ∀ high ∈ (rows.map (·.price)).max?,
    low ≤ avg ∧ avg ≤ high

/-- The tables without the rejected trades. -/
def Db.withoutRejected (db : Db) : Db :=
  { db with trades := db.trades.filter (·.status = .posted) }

def PositionDto.pair (p : PositionDto) : String × String := (p.account_id, p.symbol)

structure ShownAsEnforced (server : Server) (db : Db) (accountId : Option String) : Prop where
  pairs : ∀ a y, (a, y) ∈ (db.positions server accountId).map PositionDto.pair ↔
    matchesFilter a accountId = true ∧ db.positionAfter a y ≠ 0
  once : ((db.positions server accountId).map PositionDto.pair).Nodup
  quantity : ∀ p ∈ db.positions server accountId,
    p.quantity = db.positionAfter p.account_id p.symbol
  history : ∀ a y, db.positionAfter a y = ((db.postedHistory a y).map (·.signedQuantity)).sum
  average : ∀ p ∈ db.positions server accountId,
    IsAverage (db.purchases p.account_id p.symbol) p.avg_price
  rejected : db.withoutRejected.positions server accountId = db.positions server accountId ∧
    ∀ a y, db.withoutRejected.positionAfter a y = db.positionAfter a y ∧
      db.withoutRejected.postedHistory a y = db.postedHistory a y

/-! ## What the tables keep -/

structure Kept (db : Db) : Prop where
  quantity : ∀ t ∈ db.trades, 0 < t.quantity.units
  single : ∀ r, entries r db.journal_entries ≤ 1

theorem Finished.quantity_pos {rules : ComplianceRules} {c : Call} {es : List LedgerEvent}
    {a : Reply} (h : Finished rules c es a) :
    ∀ t ∈ (writesOf es).filterMap Write.trade?, 0 < t.quantity.units := by
  intro t ht
  cases h with
  | duplicate writes =>
    rw [writes] at ht
    cases ht
  | rejected violation rows writes =>
    obtain ⟨_, _, _, hins⟩ := rows.trade_ok
    rw [writes, rows.trades, List.mem_singleton] at ht
    exact ht ▸ hins.quantity_pos
  | posted trace rows writes read compliant =>
    obtain ⟨_, hins⟩ := rows.trade_ok
    rw [writes, rows.trades, List.mem_singleton] at ht
    exact ht ▸ hins.quantity_pos
  | credited trace drawn rows writes =>
    rw [writes, rows.trades] at ht
    cases ht

/-- One transaction writes one journal entry at most. -/
theorem Finished.entries {rules : ComplianceRules} {c : Call} {es : List LedgerEvent}
    {a : Reply} (h : Finished rules c es a) :
    ((writesOf es).filterMap Write.journalEntry?).length ≤ 1 := by
  cases h with
  | duplicate writes => simp [writes]
  | rejected violation rows writes =>
    rw [writes]
    exact Nat.zero_le 1
  | posted trace rows writes read compliant =>
    rw [writes, rows.project _ fun _ => rfl]
    exact Nat.le_refl 1
  | credited trace drawn rows writes =>
    rw [writes, rows.project _ fun _ => rfl]
    exact Nat.le_refl 1

/-- Every committed state is kept. -/
theorem kept {rules : ComplianceRules} {P : Db → Prop} {ok : LedgerState → LedgerAct → Prop}
    (hP : ∀ db, P db → Kept db) {s : LedgerState}
    (h : Reach (ledgerStep rules) ok (initial P) s) : Kept s.db := by
  refine db_invariant (I := Kept) hP ?_ h
  intro s n c es a hs get hf _ hdb
  have hfin := finished hf
  have hfresh := (sources_reserved hs).fresh _ (List.mem_of_getElem? get) rfl
  refine ⟨fun t ht => ?_, fun r => ?_⟩
  · rw [trades_applyAll, List.mem_append] at ht
    exact ht.elim (hdb.quantity t) (hfin.quantity_pos t)
  · rw [journal_entries_applyAll, Ledger.entries, List.countP_append]
    by_cases hr : r ∈ ((writesOf es).filterMap Write.journalEntry?).map (·.source_event_id)
    · -- the cause is new to the table
      have hnone : Ledger.entries r s.db.journal_entries = 0 := by
        refine entries_fresh fun e he heq => ?_
        obtain ⟨e', he', hr'⟩ := List.mem_map.mp hr
        obtain ⟨b, hb, hbe⟩ := List.mem_filterMap.mp he'
        refine hfresh r (List.mem_filterMap.mpr ⟨b, hb, ?_⟩) ⟨e, he, heq⟩
        cases b <;> cases hbe
        exact congrArg some hr'
      have hle := (List.countP_le_length
        (p := fun e : JournalEntry => decide (e.source_event_id = r))).trans hfin.entries
      rw [Ledger.entries] at hnone
      omega
    · have hnone : ((writesOf es).filterMap Write.journalEntry?).countP
          (fun e => decide (e.source_event_id = r)) = 0 := by
        refine List.countP_eq_zero.mpr fun e he heq => hr ?_
        exact List.mem_map.mpr ⟨e, he, of_decide_eq_true heq⟩
      have hle := hdb.single r
      rw [Ledger.entries] at hle
      omega

/-! ## The history lists every posted trade once -/

section Listing

variable {db : Db}

/-- The journal entry that a trade is joined with. -/
def Db.entryOf (db : Db) (t : Trade) : Option JournalEntry :=
  db.journal_entries.find? (·.source_event_id = t.request_id)

theorem Kept.joined (h : Kept db) (t : Trade) :
    db.joined t = [tradeResultMapper t (db.entryOf t)] := by
  have hle := h.single t.request_id
  rw [entries, List.countP_eq_length_filter] at hle
  have hhead : (db.journal_entries.filter fun e => decide (e.source_event_id = t.request_id)).head? =
      db.journal_entries.find? fun e => decide (e.source_event_id = t.request_id) :=
    List.head?_filter
  rw [Db.joined, Db.entryOf]
  generalize db.journal_entries.filter (fun e => decide (e.source_event_id = t.request_id)) = es
    at hle hhead ⊢
  rw [← hhead]
  cases es with
  | nil => rfl
  | cons e es =>
    cases es with
    | nil => rfl
    | cons e' es =>
      rw [List.length_cons, List.length_cons] at hle
      omega

theorem text_posted (st : TradeStatus) : st.text = "posted" ↔ st = .posted := by
  cases st <;> simp [TradeStatus.text]

theorem Kept.postedHistory (h : Kept db) (a y : String) : (db.postedHistory a y).Perm
    ((db.trades.filter (·.isPosted a y)).map fun t => tradeResultMapper t (db.entryOf t)) := by
  have hjoin : ∀ ts : List Trade, ts.flatMap db.joined =
      ts.map fun t => tradeResultMapper t (db.entryOf t) := by
    intro ts
    rw [List.map_eq_flatMap]
    exact congrArg ts.flatMap (funext h.joined)
  rw [Db.postedHistory, Db.history, hjoin, List.filter_map]
  refine List.Perm.map _ (((List.mergeSort_perm _ _).filter _).trans (.of_eq ?_))
  rw [List.filter_filter]
  refine List.filter_congr fun t _ => ?_
  simp [Trade.isPosted, matchesFilter, text_posted, tradeResultMapper, Bool.and_assoc,
    Bool.and_left_comm]

theorem Kept.purchases (h : Kept db) (a y : String) : (db.purchases a y).Perm
    (((db.trades.filter (·.isPosted a y)).filter (·.side.val = "BUY")).map fun t =>
      tradeResultMapper t (db.entryOf t)) := by
  refine ((h.postedHistory a y).filter _).trans (.of_eq ?_)
  rw [List.filter_map]
  rfl

theorem Kept.history (h : Kept db) (a y : String) :
    db.positionAfter a y = ((db.postedHistory a y).map (·.signedQuantity)).sum := by
  rw [((h.postedHistory a y).map _).sum_eq, List.map_map]
  rfl

end Listing

/-! ## The mean of the purchases -/

theorem boughtSum_eq (f : Trade → BigDecimal) (ts : List Trade) :
    boughtSum f ts = ((ts.filter (·.side.val = "BUY")).map f).sum := by
  induction ts with
  | nil => rfl
  | cons t ts ih =>
    rw [boughtSum] at ih ⊢
    by_cases hb : t.side.val = "BUY" <;> simp [hb, ih]

/-- A mean lies between the bounds of what it is taken of. -/
theorem mean_between {rows : List TradeResultDto} {avg : BigDecimal}
    (hq : ∀ r ∈ rows, 0 < r.quantity) (hw : 0 < totalQuantity rows)
    (hmean : avg * totalQuantity rows = (rows.map fun r => r.quantity * r.price).sum)
    {low high : BigDecimal} (hlow : ∀ r ∈ rows, low ≤ r.price) (hhigh : ∀ r ∈ rows, r.price ≤ high) :
    low ≤ avg ∧ avg ≤ high := by
  have hscale : ∀ x : BigDecimal, x * totalQuantity rows = (rows.map fun r => r.quantity * x).sum := by
    intro x
    rw [totalQuantity, mul_comm, ← List.sum_map_mul_right]
  constructor
  · refine le_of_mul_le_mul_right ?_ hw
    rw [hmean, hscale]
    exact List.sum_le_sum fun r hr => mul_le_mul_of_nonneg_left (hlow r hr) (hq r hr).le
  · refine le_of_mul_le_mul_right ?_ hw
    rw [hmean, hscale]
    exact List.sum_le_sum fun r hr => mul_le_mul_of_nonneg_left (hhigh r hr) (hq r hr).le

theorem totalQuantity_pos {rows : List TradeResultDto} (hq : ∀ r ∈ rows, 0 < r.quantity)
    (hne : rows ≠ []) : 0 < totalQuantity rows :=
  List.sum_pos _ (by simpa using hq) (by simpa using hne)

/-- The quotient is taken only if something was bought, and is the mean then. -/
theorem isAverage_of_bought {rows : List TradeResultDto} (hq : ∀ r ∈ rows, 0 < r.quantity)
    {divide : BigDecimal → BigDecimal → BigDecimal} (hdiv : ∀ x y, y ≠ 0 → divide x y = x / y) :
    IsAverage rows (if totalQuantity rows > 0
      then divide (rows.map fun r => r.quantity * r.price).sum (totalQuantity rows) else 0) := by
  by_cases hne : rows = []
  · subst hne
    refine ⟨fun _ => rfl, fun h => absurd rfl h, mul_zero _, fun low hlow => ?_⟩
    cases hlow
  · have hw := totalQuantity_pos hq hne
    rw [if_pos hw, hdiv _ _ hw.ne']
    have hmean := div_mul_cancel₀ (rows.map fun r => r.quantity * r.price).sum hw.ne'
    refine ⟨fun h => absurd h hne, fun _ => hw, hmean, fun low hlow high hhigh => ?_⟩
    obtain ⟨-, hlow⟩ := List.min?_eq_some_iff.mp hlow
    obtain ⟨-, hhigh⟩ := List.max?_eq_some_iff.mp hhigh
    exact mean_between hq hw hmean (fun r hr => hlow _ (List.mem_map_of_mem hr))
      fun r hr => hhigh _ (List.mem_map_of_mem hr)

/-! ## The groups that are shown -/

section Groups

variable {server : Server} {db : Db} {accountId : Option String} {a y : String}

/-- The rows of a group, out of those that the filter lets through. -/
theorem group_rows (h : matchesFilter a accountId = true) :
    (db.trades.filter fun t => t.status = .posted && matchesFilter t.account_id.val accountId).filter
        (fun t => (t.account_id.val, t.symbol.val) = (a, y)) =
      db.trades.filter (·.isPosted a y) := by
  rw [List.filter_filter]
  refine List.filter_congr fun t _ => ?_
  by_cases ha : t.account_id.val = a
  · subst ha
    simp [Trade.isPosted, h]
  · simp [Trade.isPosted, ha]

theorem positionOfGroup_eq_some {ts : List Trade} {p : PositionDto} :
    positionOfGroup server a y ts = some p ↔ (ts.map Trade.signedQuantity).sum ≠ 0 ∧
      p = ⟨a, y, (ts.map Trade.signedQuantity).sum,
        if boughtSum (·.quantity.toRat) ts > 0
        then server.divide (boughtSum (fun t => t.quantity.toRat * t.price.toRat) ts)
          (boughtSum (·.quantity.toRat) ts) else 0⟩ := by
  unfold positionOfGroup
  by_cases h : (ts.map Trade.signedQuantity).sum = 0
  · simp [h]
  · simp [h, eq_comm]

/-- One row for every pair that the filter lets through and compliance knows
with a position. -/
theorem mem_positions {p : PositionDto} : p ∈ db.positions server accountId ↔
    matchesFilter p.account_id accountId = true ∧ positionOfGroup server p.account_id p.symbol
      (db.trades.filter (·.isPosted p.account_id p.symbol)) = some p := by
  unfold Db.positions
  simp only [List.mem_mergeSort, List.mem_filterMap]
  constructor
  · rintro ⟨g, hg, hp⟩
    obtain ⟨t, ht, rfl⟩ := List.mem_map.mp (List.mem_dedup.mp hg)
    have hmatch : matchesFilter t.account_id.val accountId = true := by
      have hrow := (List.mem_filter.mp ht).2
      rw [Bool.and_eq_true] at hrow
      exact hrow.2
    rw [group_rows hmatch] at hp
    obtain ⟨-, rfl⟩ := positionOfGroup_eq_some.mp hp
    exact ⟨hmatch, hp⟩
  · rintro ⟨hmatch, hp⟩
    refine ⟨(p.account_id, p.symbol), List.mem_dedup.mpr ?_, by rwa [group_rows hmatch]⟩
    have hsum := (positionOfGroup_eq_some.mp hp).1
    have hne : db.trades.filter (·.isPosted p.account_id p.symbol) ≠ [] := by
      intro hnil
      rw [hnil] at hsum
      exact hsum rfl
    obtain ⟨t, ht⟩ := List.exists_mem_of_ne_nil _ hne
    rw [← group_rows hmatch] at ht
    obtain ⟨ht, hpair⟩ := List.mem_filter.mp ht
    exact List.mem_map.mpr ⟨t, ht, of_decide_eq_true hpair⟩

theorem positions_pairs_nodup : ((db.positions server accountId).map PositionDto.pair).Nodup := by
  unfold Db.positions
  refine ((List.mergeSort_perm _ _).map PositionDto.pair).nodup_iff.mpr ?_
  rw [List.map_filterMap]
  refine (List.nodup_dedup _).filterMap fun g g' pair hg hg' => ?_
  obtain ⟨p, hp, hpair⟩ := Option.map_eq_some_iff.mp hg
  obtain ⟨p', hp', hpair'⟩ := Option.map_eq_some_iff.mp hg'
  obtain ⟨-, rfl⟩ := positionOfGroup_eq_some.mp hp
  obtain ⟨-, rfl⟩ := positionOfGroup_eq_some.mp hp'
  exact hpair.trans hpair'.symm

theorem pair_mem_positions : (a, y) ∈ (db.positions server accountId).map PositionDto.pair ↔
    matchesFilter a accountId = true ∧ db.positionAfter a y ≠ 0 := by
  constructor
  · intro h
    obtain ⟨p, hp, hpair⟩ := List.mem_map.mp h
    obtain ⟨rfl, rfl⟩ := Prod.mk.inj hpair
    obtain ⟨hmatch, hgroup⟩ := mem_positions.mp hp
    exact ⟨hmatch, (positionOfGroup_eq_some.mp hgroup).1⟩
  · rintro ⟨hmatch, hne⟩
    obtain ⟨p, hgroup⟩ : ∃ p, positionOfGroup server a y (db.trades.filter (·.isPosted a y)) =
        some p := ⟨_, positionOfGroup_eq_some.mpr ⟨hne, rfl⟩⟩
    obtain ⟨-, hp⟩ := positionOfGroup_eq_some.mp hgroup
    have hpair : p.pair = (a, y) := by
      rw [hp]
      rfl
    obtain ⟨rfl, rfl⟩ := Prod.mk.inj hpair
    exact List.mem_map.mpr ⟨p, mem_positions.mpr ⟨hmatch, hgroup⟩, rfl⟩

/-- The quotient of a group is that of the purchases. -/
theorem Kept.average (h : Kept db) (hdiv : ∀ x z, z ≠ 0 → server.divide x z = x / z)
    {p : PositionDto} (hp : p ∈ db.positions server accountId) :
    IsAverage (db.purchases p.account_id p.symbol) p.avg_price := by
  have hperm := h.purchases p.account_id p.symbol
  have hq : ∀ r ∈ db.purchases p.account_id p.symbol, 0 < r.quantity := by
    intro r hr
    obtain ⟨t, ht, rfl⟩ := List.mem_map.mp (hperm.mem_iff.mp hr)
    have hmem := List.mem_of_mem_filter (List.mem_of_mem_filter ht)
    exact Numeric.toRat_pos.mpr (h.quantity t hmem)
  have hsum : ∀ (f : TradeResultDto → BigDecimal) (g : Trade → BigDecimal),
      (∀ t, f (tradeResultMapper t (db.entryOf t)) = g t) →
      ((db.purchases p.account_id p.symbol).map f).sum =
        boughtSum g (db.trades.filter (·.isPosted p.account_id p.symbol)) := by
    intro f g hfg
    rw [(hperm.map f).sum_eq, List.map_map, boughtSum_eq]
    exact congrArg List.sum (List.map_congr_left fun t _ => hfg t)
  have havg := isAverage_of_bought hq hdiv
  rw [totalQuantity, hsum (·.quantity) (·.quantity.toRat) fun _ => rfl,
    hsum (fun r => r.quantity * r.price) (fun t => t.quantity.toRat * t.price.toRat)
      fun _ => rfl] at havg
  obtain ⟨-, hgroup⟩ := mem_positions.mp hp
  rw [(positionOfGroup_eq_some.mp hgroup).2]
  exact havg

/-- A rejected trade is in none of the sums. -/
theorem filter_withoutRejected (db : Db) {q : Trade → Bool}
    (hq : ∀ t, q t = true → t.status = .posted) :
    db.withoutRejected.trades.filter q = db.trades.filter q := by
  rw [Db.withoutRejected, List.filter_filter]
  refine List.filter_congr fun t _ => ?_
  cases hqt : q t with
  | false => rfl
  | true => simp [hq t hqt]

theorem withoutRejected_positions (server : Server) (db : Db) (accountId : Option String) :
    db.withoutRejected.positions server accountId = db.positions server accountId := by
  rw [Db.positions, Db.positions, filter_withoutRejected db fun t ht => ?_]
  rw [Bool.and_eq_true] at ht
  exact of_decide_eq_true ht.1

theorem withoutRejected_positionAfter (db : Db) (a y : String) :
    db.withoutRejected.positionAfter a y = db.positionAfter a y := by
  refine congrArg (fun ts : List Trade => (ts.map Trade.signedQuantity).sum) ?_
  refine filter_withoutRejected db fun t ht => ?_
  simp only [Trade.isPosted, Bool.and_eq_true, decide_eq_true_eq] at ht
  exact ht.2

theorem withoutRejected_postedHistory (db : Db) (a y : String) :
    db.withoutRejected.postedHistory a y = db.postedHistory a y := by
  rw [Db.postedHistory, Db.postedHistory, Db.history, Db.history,
    filter_withoutRejected db fun t ht => ?_]
  · rfl
  · rw [Bool.and_eq_true] at ht
    exact (text_posted _).mp (of_decide_eq_true ht.2)

end Groups

/-- **Shown as enforced**, in every reachable state of a ledger that began with
nothing booked, for every filter. -/
theorem position_shown_as_enforced {rules : ComplianceRules} {ok : LedgerState → LedgerAct → Prop}
    {s : LedgerState} (h : Reach (ledgerStep rules) ok (initial NothingBooked) s)
    {server : Server} (hdiv : ∀ x y, y ≠ 0 → server.divide x y = x / y)
    (accountId : Option String) : ShownAsEnforced server s.db accountId := by
  have hkept : Kept s.db := by
    refine kept (fun db hdb => ?_) h
    obtain ⟨htrades, hentries, -, -⟩ := hdb
    refine ⟨fun t ht => ?_, fun r => ?_⟩
    · rw [htrades] at ht
      cases ht
    · rw [hentries]
      exact Nat.zero_le 1
  refine ⟨fun a y => pair_mem_positions, positions_pairs_nodup, fun p hp => ?_, hkept.history,
    fun p hp => hkept.average hdiv hp, withoutRejected_positions server s.db accountId,
    fun a y => ⟨withoutRejected_positionAfter s.db a y, withoutRejected_postedHistory s.db a y⟩⟩
  obtain ⟨-, hgroup⟩ := mem_positions.mp hp
  rw [(positionOfGroup_eq_some.mp hgroup).2]
  rfl

/-- Exact division, and symbols in the order of their code points. -/
def exactServer : Server := ⟨(· / ·), fun x y => decide (x ≤ y)⟩

theorem position_shown_as_enforced_mixedCalls : ∃ s : LedgerState, s.db.trades.length = 2 ∧
    ShownAsEnforced exactServer s.db none := by
  obtain ⟨s, hs, hp⟩ := Reach.exists_of_run (ledgerStep ⟨100⟩) anyStep (initial NothingBooked)
    mixedCalls (fun s => s.db.trades.length = 2) (s := ⟨oneAccount thousand, []⟩)
    ⟨⟨rfl, rfl, rfl, rfl⟩, rfl⟩ (by decide +kernel)
  exact ⟨s, of_decide_eq_true hp, position_shown_as_enforced hs (fun _ _ _ => rfl) none⟩

end TradePulse.Ledger
