import TradePulse.Outbox.EndToEnd
import Mathlib.Tactic.Ring

/-! # One valuation for each trade

In the pipeline the `n`th event on `risk.updates` values the books as the first
`n` trades left them, at a price that was on `market.ticks`, whatever was
published twice or replayed; and the gateway pushes each event once. -/
namespace TradePulse.Outbox
open TradePulse.Core TradePulse.Core.StreamLog TradePulse.Core.Runs
open TradePulse.Poc (upsert)
open TradePulse.Risk (roundHalfEven)
open Outbox.Ledger (fetch)

/-! ## The bus -/

/-- The four groups of the pipeline. -/
structure Groups where
  prices : ConsumerGroup Event
  trades : ConsumerGroup Event
  ticks : ConsumerGroup Event
  risk : ConsumerGroup Event

structure Wiring (b : StreamBus Event) (G : Groups) : Prop where
  prices : Refines b STREAM_TICKS GROUP G.prices
  trades : Refines b STREAM_LEDGER GROUP G.trades
  ticks : Refines b STREAM_TICKS GROUP_GATEWAY G.ticks
  risk : Refines b STREAM_RISK GROUP_GATEWAY G.risk

namespace Wiring

variable {b b' : StreamBus Event} {G : Groups}

theorem same_ticks (h : Wiring b G) : G.prices.log = G.ticks.log :=
  after_zero_inj (h.prices.entries.symm.trans h.ticks.entries)

theorem add_tick (h : Wiring b G) (e : Event) : Wiring (b.xadd STREAM_TICKS e).2
    { G with prices := G.prices.add e, ticks := G.ticks.add e } :=
  ⟨(h.prices.xadd e).2, h.trades.xadd_ne (by decide) e, (h.ticks.xadd e).2,
    h.risk.xadd_ne (by decide) e⟩

theorem add_trade (h : Wiring b G) (e : Event) :
    Wiring (b.xadd STREAM_LEDGER e).2 { G with trades := G.trades.add e } :=
  ⟨h.prices.xadd_ne (by decide) e, (h.trades.xadd e).2, h.ticks.xadd_ne (by decide) e,
    h.risk.xadd_ne (by decide) e⟩

theorem add_risk (h : Wiring b G) (e : Event) :
    Wiring (b.xadd STREAM_RISK e).2 { G with risk := G.risk.add e } :=
  ⟨h.prices.xadd_ne (by decide) e, h.trades.xadd_ne (by decide) e, h.ticks.xadd_ne (by decide) e,
    (h.risk.xadd e).2⟩

/-- One group has changed. -/
theorem set_prices (h : Wiring b G) {g : ConsumerGroup Event} (href : Refines b' STREAM_TICKS GROUP g)
    (ho : OnlyGroup (STREAM_TICKS, GROUP) b b') : Wiring b' { G with prices := g } :=
  ⟨href, h.trades.only ho (by decide), h.ticks.only ho (by decide), h.risk.only ho (by decide)⟩

theorem set_trades (h : Wiring b G) {g : ConsumerGroup Event} (href : Refines b' STREAM_LEDGER GROUP g)
    (ho : OnlyGroup (STREAM_LEDGER, GROUP) b b') : Wiring b' { G with trades := g } :=
  ⟨h.prices.only ho (by decide), href, h.ticks.only ho (by decide), h.risk.only ho (by decide)⟩

theorem set_ticks (h : Wiring b G) {g : ConsumerGroup Event}
    (href : Refines b' STREAM_TICKS GROUP_GATEWAY g)
    (ho : OnlyGroup (STREAM_TICKS, GROUP_GATEWAY) b b') : Wiring b' { G with ticks := g } :=
  ⟨h.prices.only ho (by decide), h.trades.only ho (by decide), href, h.risk.only ho (by decide)⟩

theorem set_risk (h : Wiring b G) {g : ConsumerGroup Event}
    (href : Refines b' STREAM_RISK GROUP_GATEWAY g)
    (ho : OnlyGroup (STREAM_RISK, GROUP_GATEWAY) b b') : Wiring b' { G with risk := g } :=
  ⟨h.prices.only ho (by decide), h.trades.only ho (by decide), h.ticks.only ho (by decide), href⟩

end Wiring

/-! ## The engine -/

/-- What the first trades in `AAPL` made of the cash. -/
def cashOf (trades : List (Envelope LedgerData)) (symbol : String) : ℚ :=
  ((trades.filter (·.data.symbol = symbol)).map (·.data.cash_delta)).sum

/-- The position in a symbol after some trades. -/
def positionOf (trades : List (Envelope LedgerData)) (symbol : String) : ℚ :=
  (lastOf (trades.map fun t => (t.data.symbol, t.data.position_after)) symbol).getD 0

/-- A price of `AAPL` that was on the stream, or none yet. -/
def Quoted (ticks : List Event) (price : ℚ) : Prop :=
  price = 0 ∨ ∃ e ∈ ticks, ∃ d, e.data = .tick d ∧ d.symbol = "AAPL" ∧ d.price = price

/-- The event values the books after the trades, of which `t` is the last. -/
structure Values (ticks : List Event) (trades : List (Envelope LedgerData))
    (t : Envelope LedgerData) (e : Event) : Prop where
  type : e.event_type = "RiskComputed"
  correlation_id : e.correlation_id = t.correlation_id
  data : ∃ d price, e.data = .risk d ∧ d.account_id = t.data.account_id ∧ Quoted ticks price ∧
    d.portfolio_value = roundHalfEven
      (SEED_CASH + cashOf trades "AAPL" + positionOf trades "AAPL" * price) 2

/-- Trades and the events that value them. -/
inductive Valued (ticks : List Event) : List (Envelope LedgerData) → List Event → Prop
  | nil : Valued ticks [] []
  | snoc {trades : List (Envelope LedgerData)} {events : List Event} {t : Envelope LedgerData}
      {e : Event} : Valued ticks trades events → Values ticks (trades ++ [t]) t e →
      Valued ticks (trades ++ [t]) (events ++ [e])

namespace Valued

variable {ticks : List Event} {trades : List (Envelope LedgerData)} {events : List Event}

theorem length (h : Valued ticks trades events) : events.length = trades.length := by
  induction h with
  | nil => rfl
  | snoc _ _ ih => rw [List.length_append, List.length_append, ih]; rfl

theorem values (h : Valued ticks trades events) {i : Nat} {e : Event} (he : events[i]? = some e) :
    ∃ t, trades[i]? = some t ∧ Values ticks (trades.take (i + 1)) t e := by
  induction h with
  | nil => cases he
  | snoc h hv ih =>
    rename_i trades events t e'
    rcases Nat.lt_or_ge i events.length with hi | hi
    · rw [List.getElem?_append_left hi] at he
      obtain ⟨t', ht', hv'⟩ := ih he
      have hlt : i < trades.length := h.length ▸ hi
      refine ⟨t', by rw [List.getElem?_append_left hlt, ht'], ?_⟩
      rwa [List.take_append_of_le_length hlt]
    · obtain ⟨hlt, hval⟩ := List.getElem?_eq_some_iff.mp he
      rw [List.length_append, List.length_singleton] at hlt
      have hlast : i = events.length := by omega
      subst hlast
      rw [List.getElem?_concat_length] at he
      cases he
      have hlen := h.length
      refine ⟨t, by rw [hlen, List.getElem?_concat_length], ?_⟩
      rw [hlen, List.take_of_length_le (by simp)]
      exact hv

/-- More ticks. -/
theorem mono (h : Valued ticks trades events) {ticks' : List Event} (hsub : ticks ⊆ ticks') :
    Valued ticks' trades events := by
  induction h with
  | nil => exact .nil
  | snoc _ hv ih =>
    obtain ⟨htype, hcorr, d, price, hdata, hacc, hquoted, hpv⟩ := hv
    refine ih.snoc ⟨htype, hcorr, d, price, hdata, hacc, ?_, hpv⟩
    exact hquoted.imp_right fun ⟨e, he, hd⟩ => ⟨e, hsub he, hd⟩

end Valued

/-- The engine has applied the trades, each of which is valued on the stream. -/
structure Engine (r : RiskEngine) (ticks : List Event) (trades : List (Envelope LedgerData))
    (events : List Event) : Prop where
  seen : r.seen = trades.map (·.event_id)
  applied : r.applied = trades.length
  pos : ∀ symbol, RiskEngine.get r.pos symbol = positionOf trades symbol
  cost : ∀ symbol, RiskEngine.get r.cost symbol = -cashOf trades symbol
  valued : Valued ticks trades events

theorem positionOf_snoc (trades : List (Envelope LedgerData)) (t : Envelope LedgerData)
    (symbol : String) : positionOf (trades ++ [t]) symbol =
      if t.data.symbol = symbol then t.data.position_after else positionOf trades symbol := by
  rw [positionOf, List.map_append, List.map_singleton, lastOf_snoc]
  dsimp only
  split <;> rfl

theorem cashOf_snoc (trades : List (Envelope LedgerData)) (t : Envelope LedgerData)
    (symbol : String) : cashOf (trades ++ [t]) symbol =
      if t.data.symbol = symbol then cashOf trades symbol + t.data.cash_delta
      else cashOf trades symbol := by
  rw [cashOf, List.filter_append, List.map_append, List.sum_append, ← cashOf]
  by_cases h : t.data.symbol = symbol <;> simp [h]

theorem get_upsert (rows : List (String × ℚ)) (key key' : String) (value : ℚ) :
    RiskEngine.get (upsert rows key value) key' =
      if key' = key then value else RiskEngine.get rows key' := by
  rw [RiskEngine.get, fetch_upsert]
  split <;> rfl

/-- The prices that the engine has cached were on the stream. -/
def Cached (ticks : List Event) (latest : List (String × ℚ)) : Prop :=
  ∀ symbol price, fetch symbol latest = some price →
    ∃ e ∈ ticks, ∃ d, e.data = .tick d ∧ d.symbol = symbol ∧ d.price = price

theorem Engine.apply {r : RiskEngine} {ticks : List Event} {trades : List (Envelope LedgerData)}
    {events : List Event} (h : Engine r ticks trades events) {latest : List (String × ℚ)}
    (hcached : Cached ticks latest) (t : Envelope LedgerData) (draw : Draw) :
    let a := (r.note (ledgerEvent t) t.data).compute latest draw t.data.account_id t.correlation_id
    Engine a.1 ticks (trades ++ [t]) (events ++ [a.2]) := by
  intro a
  have hpos : ∀ symbol, RiskEngine.get a.1.pos symbol = positionOf (trades ++ [t]) symbol := by
    intro symbol
    change RiskEngine.get (upsert r.pos t.data.symbol t.data.position_after) symbol = _
    rw [get_upsert, positionOf_snoc, h.pos]
    simp only [eq_comm (a := symbol)]
  have hcost : ∀ symbol, RiskEngine.get a.1.cost symbol = -cashOf (trades ++ [t]) symbol := by
    intro symbol
    change RiskEngine.get (upsert r.cost t.data.symbol
      (RiskEngine.get r.cost t.data.symbol + -t.data.cash_delta)) symbol = _
    rw [get_upsert, cashOf_snoc, h.cost, h.cost]
    by_cases hs : symbol = t.data.symbol
    · rw [if_pos hs, if_pos hs.symm, hs]
      ring
    · rw [if_neg hs, if_neg (Ne.symm hs)]
  refine ⟨?_, ?_, hpos, hcost, h.valued.snoc ⟨rfl, rfl, ?_⟩⟩
  · change r.seen ++ [t.event_id] = _
    rw [h.seen, List.map_append, List.map_singleton]
  · change r.applied + 1 = _
    rw [h.applied, List.length_append, List.length_singleton]
  · refine ⟨_, RiskEngine.get latest "AAPL", rfl, rfl, ?_, ?_⟩
    · rw [RiskEngine.get]
      cases hprice : fetch "AAPL" latest with
      | none => exact .inl rfl
      | some price =>
        obtain ⟨e, he, d, hd, hsymbol, hdprice⟩ := hcached "AAPL" price hprice
        exact .inr ⟨e, he, d, hd, hsymbol, hdprice⟩
    · change roundHalfEven (SEED_CASH + (RiskEngine.get a.1.pos "AAPL" *
        RiskEngine.get latest "AAPL" - RiskEngine.get a.1.cost "AAPL")) 2 = _
      rw [hpos, hcost]
      congr 1
      ring

/-! ## Reading -/

section Reading

variable {b : StreamBus Event} {G : Groups} {draw : Nat → Draw}

/-- Envelopes under the ids that were drawn for them. -/
def Minted (draw : Nat → Draw) (n : Nat) (new : List Event) : Prop :=
  new.map (·.event_id) = (List.range' n new.length).map fun k => (draw k).event_id

theorem Minted.cons {n : Nat} {e : Event} {new : List Event} (he : e.event_id = (draw n).event_id)
    (h : Minted draw (n + 1) new) : Minted draw n (e :: new) := by
  rw [Minted, List.map_cons, List.length_cons, List.range'_succ, List.map_cons, he]
  exact congrArg _ h

/-- The events handed to the engine, and the trades among them. -/
structure Handed (xs : List Event) (trades : List (Envelope LedgerData)) : Prop where
  first : distinct xs = trades.map ledgerEvent

theorem Handed.ids {xs : List Event} {trades : List (Envelope LedgerData)} (h : Handed xs trades)
    {id : String} : id ∈ trades.map (·.event_id) ↔ id ∈ xs.map (·.event_id) := by
  have hkeys : id ∈ (distinct xs).map (·.event_id) ↔ id ∈ xs.map (·.event_id) :=
    mem_firstsBy_keys
  rw [← hkeys, h.first, List.map_map]
  rfl

theorem apply_loop (draw : Nat → Draw) {xs : List Event} {trades : List (Envelope LedgerData)} {r : RiskEngine}
    {ticks : List Event} {latest : List (String × ℚ)} (hcached : Cached ticks latest)
    (hw : Wiring b G) (hxs : Handed xs trades) (hr : Engine r ticks trades G.risk.log) (n : Nat)
    {es : List (Nat × Event)} (hes : ∀ e ∈ es, ∃ t, e.2 = ledgerEvent t) :
    ∃ r' b' trades' new,
      es.foldlM (RiskEngine.apply draw latest) (r, n, b) = .ok (r', n + new.length, b') ∧
      Wiring b' { G with
        trades := G.trades.ackAll (es.map Prod.fst), risk := new.foldl .add G.risk } ∧
      Handed (xs ++ es.map Prod.snd) trades' ∧ Engine r' ticks trades' (G.risk.log ++ new) ∧
      Minted draw n new ∧ ∀ e ∈ new, e.event_type = "RiskComputed" := by
  induction es generalizing b G xs trades r n with
  | nil =>
    refine ⟨r, b, trades, [], rfl, hw, ?_, ?_, rfl, fun _ he => absurd he List.not_mem_nil⟩
    · rwa [List.map_nil, List.append_nil]
    · rwa [List.append_nil]
  | cons e es ih =>
    obtain ⟨eid, evt⟩ := e
    obtain ⟨t, rfl⟩ : ∃ t, evt = ledgerEvent t := hes (eid, evt) List.mem_cons_self
    have hrest : ∀ e ∈ es, ∃ t, e.2 = ledgerEvent t := fun e he =>
      hes e (List.mem_cons_of_mem _ he)
    obtain ⟨b₁, hack, href, honly⟩ := hw.trades.xack eid
    have hw₁ := hw.set_trades href honly
    by_cases hknown : (ledgerEvent t).event_id ∈ r.seen
    · -- A duplicate changes nothing but a counter.
      have happly : RiskEngine.apply draw latest (r, n, b) (eid, ledgerEvent t) =
          .ok ({ r with skipped := r.skipped + 1 }, n, b₁) := by
        simp only [RiskEngine.apply, if_pos hknown, hack]
        rfl
      have hxs₁ : Handed (xs ++ [ledgerEvent t]) trades := by
        rw [hr.seen, hxs.ids] at hknown
        exact ⟨(firstsBy_snoc_known hknown).trans hxs.first⟩
      have hr₁ : Engine { r with skipped := r.skipped + 1 } ticks trades G.risk.log :=
        ⟨hr.seen, hr.applied, hr.pos, hr.cost, hr.valued⟩
      obtain ⟨r', b', trades', new, hloop, hw', hxs', hr', hminted, htypes⟩ :=
        ih hw₁ hxs₁ hr₁ n hrest
      refine ⟨r', b', trades', new, ?_, hw', ?_, hr', hminted, htypes⟩
      · rw [List.foldlM_cons, happly]
        exact hloop
      · rwa [List.append_assoc, List.singleton_append] at hxs'
    · let a := (r.note (ledgerEvent t) t.data).compute latest (draw n) t.data.account_id t.correlation_id
      have happly : RiskEngine.apply draw latest (r, n, b) (eid, ledgerEvent t) =
          .ok (a.1, n + 1, (b₁.xadd STREAM_RISK a.2).2) := by
        simp only [RiskEngine.apply, if_neg hknown, hack, a]
        rfl
      have hxs₁ : Handed (xs ++ [ledgerEvent t]) (trades ++ [t]) := by
        rw [hr.seen, hxs.ids] at hknown
        refine ⟨(firstsBy_snoc_new hknown).trans ?_⟩
        rw [← distinct, hxs.first, List.map_append, List.map_singleton]
      have hr₁ : Engine a.1 ticks (trades ++ [t]) (G.risk.log ++ [a.2]) :=
        hr.apply hcached t (draw n)
      obtain ⟨r', b', trades', new, hloop, hw', hxs', hr', hminted, htypes⟩ :=
        ih (hw₁.add_risk a.2) hxs₁ hr₁ (n + 1) hrest
      refine ⟨r', b', trades', a.2 :: new, ?_, hw', ?_, ?_, hminted.cons rfl, ?_⟩
      · rw [List.foldlM_cons, happly, List.length_cons, ← Nat.add_assoc, Nat.add_right_comm]
        exact hloop
      · rwa [List.append_assoc, List.singleton_append] at hxs'
      · rwa [ConsumerGroup.log_add, List.append_assoc, List.singleton_append] at hr'
      · intro e' he'
        rcases List.mem_cons.mp he' with rfl | he'
        · rfl
        · exact htypes e' he'

theorem Cached.upsert {ticks : List Event} {latest : List (String × ℚ)} (h : Cached ticks latest)
    {e : Event} (he : e ∈ ticks) {d : TickData} (hd : e.data = .tick d) :
    Cached ticks (Poc.upsert latest d.symbol d.price) := by
  intro symbol price hprice
  rw [fetch_upsert] at hprice
  split at hprice
  · rename_i hs
    exact ⟨e, he, d, hd, hs.symm, Option.some.inj hprice⟩
  · exact h symbol price hprice

theorem refresh_loop {ticks : List Event} {latest : List (String × ℚ)} (hcached : Cached ticks latest)
    (hw : Wiring b G) {es : List (Nat × Event)}
    (hes : ∀ e ∈ es, e.2 ∈ ticks ∧ ∃ d, e.2.data = .tick d) :
    ∃ latest' b', refreshLoop es (latest, b) = .ok (latest', b') ∧ Cached ticks latest' ∧
      Wiring b' { G with prices := G.prices.ackAll (es.map Prod.fst) } := by
  induction es generalizing b G latest with
  | nil => exact ⟨latest, b, rfl, hcached, hw⟩
  | cons e es ih =>
    obtain ⟨hmem, d, hd⟩ := hes e List.mem_cons_self
    obtain ⟨b₁, hack, href, honly⟩ := hw.prices.xack e.1
    obtain ⟨latest', b', hloop, hcached', hw'⟩ := ih (hcached.upsert hmem hd)
      (hw.set_prices href honly) fun e he => hes e (List.mem_cons_of_mem _ he)
    refine ⟨latest', b', ?_, hcached', hw'⟩
    obtain ⟨eid, evt⟩ := e
    simp only [refreshLoop, show evt.data = .tick d from hd, hack, bind, Except.bind]
    exact hloop

theorem push_loop {stream : String} {g : ConsumerGroup Event}
    (h : Refines b stream GROUP_GATEWAY g) (gw : Gateway) (es : List (Nat × Event)) :
    ∃ b', es.foldlM (Gateway.pushEntry stream) (gw, b) =
        .ok (es.foldl (fun gw e => gw.note e.2) gw, b') ∧
      Refines b' stream GROUP_GATEWAY (g.ackAll (es.map Prod.fst)) ∧
      OnlyGroup (stream, GROUP_GATEWAY) b b' := by
  induction es generalizing b g gw with
  | nil => exact ⟨b, rfl, h, .refl b⟩
  | cons e es ih =>
    obtain ⟨b₁, hack, href, honly⟩ := h.xack e.1
    obtain ⟨b', hloop, href', honly'⟩ := ih href (gw.note e.2)
    refine ⟨b', ?_, href', honly.trans honly'⟩
    have hpush : Gateway.pushEntry stream (gw, b) e = .ok (gw.note e.2, b₁) := by
      simp only [Gateway.pushEntry, hack]
      rfl
    rw [List.foldlM_cons, hpush]
    exact hloop

theorem pumpStream_ok {stream : String} {g : ConsumerGroup Event}
    (h : Refines b stream GROUP_GATEWAY g) (gw : Gateway) :
    ∃ b', Gateway.pumpStream stream (gw, b) =
        .ok ((g.unread 10).foldl (fun gw e => gw.note e.2) gw, b') ∧
      Refines b' stream GROUP_GATEWAY (g.takeNew 10) ∧
      OnlyGroup (stream, GROUP_GATEWAY) b b' := by
  obtain ⟨b₁, hread, href, honly⟩ := h.xreadgroup 10
  obtain ⟨b₂, hloop, href', honly'⟩ := push_loop href gw (g.unread 10)
  refine ⟨b₂, ?_, href', honly.trans honly'⟩
  rw [Gateway.pumpStream, hread]
  exact hloop

end Reading

/-! ## What holds between calls -/

/-- From the ledger to the events on `risk.updates`. -/
structure Trading (p : Pipeline) (G : Groups) (xs : List Event)
    (trades : List (Envelope LedgerData)) : Prop where
  sound : p.ledger.Sound
  relayed : Relayed ledgerEvent p.ledger.db.outbox_events G.trades.log
  events : ∀ e ∈ G.trades.log, ∃ t, e = ledgerEvent t
  idle : ∀ id, G.trades.pending id = none
  ordered : ∃ d, OrderedTo G.trades.next d G.trades xs
  handed : Handed xs trades
  engine : Engine p.risk G.ticks.log trades G.risk.log
  cached : Cached G.ticks.log p.latest
  quotes : ∀ e ∈ G.ticks.log, ∃ d, e.data = .tick d

def isTick (e : Event) : Bool := e.event_type = "TickReceived"
def isRisk (e : Event) : Bool := e.event_type = "RiskComputed"

/-- Every envelope was drawn once. -/
structure Minting (draw : Nat → Draw) (n : Nat) (G : Groups) (all : List Event) : Prop where
  minted : Minted draw 0 all
  length : all.length = n
  ticks : all.filter isTick = G.ticks.log
  risk : all.filter isRisk = G.risk.log

/-- The gateway has pushed what its groups have delivered. -/
structure Pushing (gw : Gateway) (G : Groups) (ys : List Event) : Prop where
  seen : gw.seen = ys.map (·.event_id)
  pushed : gw.pushed = ys.map fun e => (e.event_type, Gateway.label e.data)
  ids : (ys.map (·.event_id)).Nodup
  ticks : ys.filter isTick = G.ticks.log.take G.ticks.next
  risk : ys.filter isRisk = G.risk.log.take G.risk.next
  kinds : ∀ y ∈ ys, isTick y = true ∨ isRisk y = true
  tickCursor : G.ticks.next ≤ G.ticks.log.length
  riskCursor : G.risk.next ≤ G.risk.log.length

def Flow (draw : Nat → Draw) (p : Pipeline) : Prop :=
  ∃ G xs trades all ys, Wiring p.bus G ∧ Trading p G xs trades ∧ Minting draw p.drawn G all ∧
    Pushing p.gateway G ys

section Flow

variable {draw : Nat → Draw} {p : Pipeline} {G : Groups}

theorem Minted.append {all new : List Event} (h : Minted draw 0 all)
    (hnew : Minted draw all.length new) : Minted draw 0 (all ++ new) := by
  rw [Minted, List.map_append, h, hnew, List.length_append, ← List.map_append,
    ← List.range'_append_1, Nat.zero_add]

theorem Minted.nodup {all : List Event} (hdraw : ∀ m n, (draw m).event_id = (draw n).event_id → m = n)
    (h : Minted draw 0 all) : (all.map (·.event_id)).Nodup := by
  rw [h]
  exact List.Nodup.map (fun m n => hdraw m n) List.nodup_range'

theorem Minting.add_ticks {n : Nat} {all new : List Event} (h : Minting draw n G all)
    (hnew : Minted draw n new) (htypes : ∀ e ∈ new, e.event_type = "TickReceived")
    {g g' : ConsumerGroup Event} (hg : g.log = G.ticks.log ++ new) :
    Minting draw (n + new.length) { G with prices := g', ticks := g } (all ++ new) := by
  have hlen := h.length
  subst hlen
  refine ⟨h.minted.append hnew, List.length_append, ?_, ?_⟩
  · rw [List.filter_append, h.ticks, List.filter_eq_self.mpr, hg]
    exact fun e he => decide_eq_true (htypes e he)
  · rw [List.filter_append, h.risk, List.filter_eq_nil_iff.mpr, List.append_nil]
    intro e he hrisk
    rw [isRisk, htypes e he] at hrisk
    exact absurd (of_decide_eq_true hrisk) (by decide)

theorem Minting.add_risk {n : Nat} {all new : List Event} (h : Minting draw n G all)
    (hnew : Minted draw n new) (htypes : ∀ e ∈ new, e.event_type = "RiskComputed")
    {g g' : ConsumerGroup Event} (hg : g.log = G.risk.log ++ new) :
    Minting draw (n + new.length) { G with trades := g', risk := g } (all ++ new) := by
  have hlen := h.length
  subst hlen
  refine ⟨h.minted.append hnew, List.length_append, ?_, ?_⟩
  · rw [List.filter_append, h.ticks, List.filter_eq_nil_iff.mpr, List.append_nil]
    intro e he htick
    rw [isTick, htypes e he] at htick
    exact absurd (of_decide_eq_true htick) (by decide)
  · rw [List.filter_append, h.risk, List.filter_eq_self.mpr, hg]
    exact fun e he => decide_eq_true (htypes e he)

theorem Engine.mono {r : RiskEngine} {ticks ticks' : List Event}
    {trades : List (Envelope LedgerData)} {events : List Event} (h : Engine r ticks trades events)
    (hsub : ticks ⊆ ticks') : Engine r ticks' trades events :=
  ⟨h.seen, h.applied, h.pos, h.cost, h.valued.mono hsub⟩

theorem Cached.mono {ticks ticks' : List Event} {latest : List (String × ℚ)}
    (h : Cached ticks latest) (hsub : ticks ⊆ ticks') : Cached ticks' latest :=
  fun symbol price hprice =>
    let ⟨e, he, hd⟩ := h symbol price hprice
    ⟨e, hsub he, hd⟩

/-! ### Each call -/

theorem produce_loop (draw : Nat → Draw) (correlation_id symbol : String) (prices : List ℚ) {b : StreamBus Event}
    (hw : Wiring b G) (n : Nat) : ∃ new : List Event, ∃ b',
      produce_ticks draw correlation_id symbol prices (n, b) = (n + new.length, b') ∧
      Wiring b' { G with
        prices := new.foldl .add G.prices, ticks := new.foldl .add G.ticks } ∧
      Minted draw n new ∧ ∀ e ∈ new, e.event_type = "TickReceived" ∧ ∃ d, e.data = .tick d := by
  induction prices generalizing b G n with
  | nil => exact ⟨[], b, rfl, hw, rfl, fun _ he => absurd he List.not_mem_nil⟩
  | cons price prices ih =>
    let e := tickEvent (draw n) symbol correlation_id price
    obtain ⟨new, b', hloop, hw', hminted, htypes⟩ := ih (hw.add_tick e) (n + 1)
    refine ⟨e :: new, b', ?_, hw', hminted.cons rfl, ?_⟩
    · rw [List.length_cons, ← Nat.add_assoc, Nat.add_right_comm]
      exact hloop
    · intro e' he'
      rcases List.mem_cons.mp he' with rfl | he'
      · exact ⟨rfl, _, rfl⟩
      · exact htypes e' he'

theorem Pushing.grow {gw : Gateway} {ys : List Event} (h : Pushing gw G ys) {G' : Groups}
    (hticks : ∃ new, G'.ticks.log = G.ticks.log ++ new) (htick : G'.ticks.next = G.ticks.next)
    (hrisks : ∃ new, G'.risk.log = G.risk.log ++ new) (hrisk : G'.risk.next = G.risk.next) :
    Pushing gw G' ys := by
  obtain ⟨newT, hT⟩ := hticks
  obtain ⟨newR, hR⟩ := hrisks
  refine ⟨h.seen, h.pushed, h.ids, ?_, ?_, h.kinds, ?_, ?_⟩
  · rw [htick, hT, List.take_append_of_le_length h.tickCursor, h.ticks]
  · rw [hrisk, hR, List.take_append_of_le_length h.riskCursor, h.risk]
  · rw [htick, hT, List.length_append]
    exact h.tickCursor.trans (Nat.le_add_right ..)
  · rw [hrisk, hR, List.length_append]
    exact h.riskCursor.trans (Nat.le_add_right ..)

theorem Flow.produce (h : Flow draw p) (correlation_id symbol : String) (prices : List ℚ)
    {p' : Pipeline}
    (hstep : Pipeline.step draw (.produce_ticks prices correlation_id symbol) p = some p') :
    Flow draw p' := by
  obtain ⟨G, xs, trades, all, ys, hw, ht, hm, hp⟩ := h
  obtain ⟨new, b', hloop, hw', hminted, htypes⟩ :=
    produce_loop draw correlation_id symbol prices hw p.drawn
  simp only [Pipeline.step, hloop, Option.some.injEq] at hstep
  subst hstep
  have hlog : (new.foldl ConsumerGroup.add G.ticks).log = G.ticks.log ++ new :=
    ConsumerGroup.log_addAll ..
  have hsub : G.ticks.log ⊆ (new.foldl ConsumerGroup.add G.ticks).log := fun e he =>
    hlog ▸ List.mem_append_left _ he
  refine ⟨_, xs, trades, all ++ new, ys, hw', ?_,
    hm.add_ticks hminted (fun e he => (htypes e he).1) hlog,
    hp.grow ⟨new, hlog⟩ (ConsumerGroup.next_addAll ..) ⟨[], (List.append_nil _).symm⟩ rfl⟩
  refine ⟨ht.sound, ht.relayed, ht.events, ht.idle, ht.ordered, ht.handed, ht.engine.mono hsub,
    ht.cached.mono hsub, fun e he => ?_⟩
  rw [hlog] at he
  exact (List.mem_append.mp he).elim (ht.quotes e) fun he => (htypes e he).2

theorem Flow.refresh (h : Flow draw p) {p' : Pipeline}
    (hstep : Pipeline.step draw .refresh p = some p') : Flow draw p' := by
  obtain ⟨G, xs, trades, all, ys, hw, ht, hm, hp⟩ := h
  obtain ⟨b₁, hread, href, honly⟩ := hw.prices.xreadgroup 10
  have hes : ∀ e ∈ G.prices.unread 10, e.2 ∈ G.ticks.log ∧ ∃ d, e.2.data = .tick d := by
    intro e he
    have hmem : e.2 ∈ G.ticks.log := hw.same_ticks ▸
      (ConsumerGroup.inOrder_unread G.prices 10).mem_log (List.mem_map_of_mem he)
    exact ⟨hmem, ht.quotes e.2 hmem⟩
  obtain ⟨latest', b', hloop, hcached, hw'⟩ :=
    refresh_loop ht.cached (hw.set_prices href honly) hes
  have hrefresh : Outbox.refresh (p.latest, p.bus) = .ok (latest', b') := by
    rw [Outbox.refresh, hread]
    exact hloop
  simp only [Pipeline.step, hrefresh, Except.toOption, bind, Option.bind, pure,
    Option.some.injEq] at hstep
  subst hstep
  exact ⟨_, xs, trades, all, ys, hw', ⟨ht.sound, ht.relayed, ht.events, ht.idle, ht.ordered,
    ht.handed, ht.engine, hcached, ht.quotes⟩, ⟨hm.minted, hm.length, hm.ticks, hm.risk⟩,
    hp.grow ⟨[], (List.append_nil _).symm⟩ rfl ⟨[], (List.append_nil _).symm⟩ rfl⟩

theorem Flow.post_trade (h : Flow draw p) {req : Req} {crash_point : Option CrashPoint} {d : Draws}
    (hfresh : Ledger.Fresh p.ledger.db d) {p' : Pipeline}
    (hstep : Pipeline.step draw (.post_trade req crash_point d) p = some p') : Flow draw p' := by
  obtain ⟨G, xs, trades, all, ys, hw, ht, hm, hp⟩ := h
  cases hstep
  exact ⟨G, xs, trades, all, ys, hw, ⟨ht.sound.post_trade hfresh crash_point,
    ht.relayed.post_trade ht.sound hfresh crash_point, ht.events, ht.idle, ht.ordered, ht.handed,
    ht.engine, ht.cached, ht.quotes⟩, hm, hp⟩

theorem Wiring.add_trades {b : StreamBus Event} (hw : Wiring b G) (es : List Event) :
    Wiring (es.foldl (fun b e => (b.xadd STREAM_LEDGER e).2) b)
      { G with trades := es.foldl .add G.trades } := by
  induction es generalizing b G with
  | nil => exact hw
  | cons e es ih => exact ih (hw.add_trade e)

theorem Trading.add_trades {xs : List Event} {trades : List (Envelope LedgerData)}
    (h : Trading p G xs trades) {es : List Event} (hes : ∀ e ∈ es, ∃ t, e = ledgerEvent t)
    {l : Ledger} (hl : l.Sound)
    (hrelayed : Relayed ledgerEvent l.db.outbox_events (G.trades.log ++ es)) {b : StreamBus Event} :
    Trading { p with ledger := l, bus := b } { G with trades := es.foldl .add G.trades } xs
      trades := by
  have hlog : (es.foldl ConsumerGroup.add G.trades).log = G.trades.log ++ es :=
    ConsumerGroup.log_addAll ..
  obtain ⟨d, hordered⟩ := h.ordered
  refine ⟨hl, hlog ▸ hrelayed, fun e he => ?_, fun id => ?_, ⟨d, ?_⟩, h.handed, h.engine,
    h.cached, h.quotes⟩
  · rw [hlog] at he
    exact (List.mem_append.mp he).elim (h.events e) (hes e)
  · rw [ConsumerGroup.pending_addAll]
    exact h.idle id
  · rw [ConsumerGroup.next_addAll]
    exact hordered.addAll es

theorem Flow.relay (h : Flow draw p) (inject_dup : Bool) (effects : Nat) {p' : Pipeline}
    (hstep : Pipeline.step draw (.relay_outbox inject_dup effects) p = some p') :
    Flow draw p' := by
  obtain ⟨G, xs, trades, all, ys, hw, ht, hm, hp⟩ := h
  cases hstep
  have hkeyed : Keyed ledgerEvent p.ledger.db.outbox_events :=
    ⟨ht.sound.2.payloads, ht.sound.2.event_ids⟩
  have hrelayed := ht.relayed.effects hkeyed inject_dup effects
  obtain ⟨hrows, -, -, hbus⟩ := foldl_effects ledgerEvent STREAM_LEDGER
    ((p.ledger.unsent_outbox.flatMap (rowEffects inject_dup)).take effects) p.ledger p.bus
  have hw' := hw.add_trades ((published ((p.ledger.unsent_outbox.flatMap
    (rowEffects inject_dup)).take effects)).map ledgerEvent)
  rw [← hbus] at hw'
  refine ⟨_, xs, trades, all, ys, hw', ht.add_trades ?_ ?_ ?_,
    ⟨hm.minted, hm.length, hm.ticks, hm.risk⟩,
    hp.grow ⟨[], (List.append_nil _).symm⟩ rfl ⟨[], (List.append_nil _).symm⟩ rfl⟩
  · intro e he
    obtain ⟨t, -, rfl⟩ := List.mem_map.mp he
    exact ⟨t, rfl⟩
  · exact ht.sound.relayTo STREAM_LEDGER inject_dup effects p.bus
  · rw [hrows]
    exact hrelayed

/-- An event that is on the stream already does not count. -/
theorem Relayed.again {rows : List OutboxRow} {log : List Event} (h : Relayed ledgerEvent rows log)
    {e : Event} (he : e ∈ log) : Relayed ledgerEvent rows (log ++ [e]) := by
  obtain ⟨done, todo, k, hrows, hdone⟩ := h
  refine ⟨done, todo, k, hrows, hdone.sent, hdone.unsent, hdone.length, ?_⟩
  rw [distinct, firstsBy_snoc_known (List.mem_map_of_mem he), ← distinct, hdone.first]

theorem Flow.duplicate (h : Flow draw p) {position : Nat} {p' : Pipeline}
    (hstep : Pipeline.step draw (.duplicate position) p = some p') : Flow draw p' := by
  obtain ⟨G, xs, trades, all, ys, hw, ht, hm, hp⟩ := h
  obtain ⟨e, he, hstep⟩ := Option.bind_eq_some_iff.mp hstep
  cases hstep
  have hmem : e.2 ∈ G.trades.log := by
    have hin := List.mem_of_getElem? he
    rw [hw.trades.entries] at hin
    rw [← map_snd_after_zero G.trades.log]
    exact List.mem_map_of_mem hin
  refine ⟨_, xs, trades, all, ys, hw.add_trades [e.2], ht.add_trades (fun e' he' => ?_) ht.sound
    (ht.relayed.again hmem), ⟨hm.minted, hm.length, hm.ticks, hm.risk⟩,
    hp.grow ⟨[], (List.append_nil _).symm⟩ rfl ⟨[], (List.append_nil _).symm⟩ rfl⟩
  rw [List.mem_singleton.mp he']
  exact ht.events e.2 hmem

theorem Flow.setid (h : Flow draw p) {start : Int} (ha : p.Admitted (.setid start))
    {p' : Pipeline} (hstep : Pipeline.step draw (.setid start) p = some p') : Flow draw p' := by
  obtain ⟨G, xs, trades, all, ys, hw, ht, hm, hp⟩ := h
  cases hstep
  obtain ⟨hstart, hseen⟩ := ha
  rw [hw.trades.stream_len] at hstart
  obtain ⟨d, hordered⟩ := ht.ordered
  have hpassed : ∀ e ∈ G.trades.log.take start.toNat, e.event_id ∈ xs.map (·.event_id) := by
    intro e he
    rw [← map_snd_after_zero G.trades.log, ← List.map_take, ← hw.trades.entries] at he
    obtain ⟨entry, hentry, rfl⟩ := List.mem_map.mp he
    rw [← ht.handed.ids, ← ht.engine.seen]
    exact hseen entry hentry
  obtain ⟨l', d', hrecreated⟩ := hordered.recreate hstart hpassed
  have hidle : ∀ id, (G.trades.recreate start.toNat).pending id = none := fun _ => rfl
  have hl := hrecreated.eq_next hidle
  subst hl
  refine ⟨_, xs, trades, all, ys, hw.set_trades (hw.trades.setid start) (OnlyGroup.setGroup ..),
    ⟨ht.sound, ht.relayed, ht.events, hidle, ⟨d', hrecreated⟩, ht.handed, ht.engine, ht.cached,
      ht.quotes⟩, ⟨hm.minted, hm.length, hm.ticks, hm.risk⟩,
    hp.grow ⟨[], (List.append_nil _).symm⟩ rfl ⟨[], (List.append_nil _).symm⟩ rfl⟩

theorem Flow.poll (h : Flow draw p) {p' : Pipeline}
    (hstep : Pipeline.step draw .poll p = some p') : Flow draw p' := by
  obtain ⟨G, xs, trades, all, ys, hw, ht, hm, hp⟩ := h
  obtain ⟨b₁, hread, href, honly⟩ := hw.trades.xreadgroup 10
  have hes : ∀ e ∈ G.trades.unread 10, ∃ t, e.2 = ledgerEvent t := fun e he =>
    ht.events e.2 ((ConsumerGroup.inOrder_unread G.trades 10).mem_log (List.mem_map_of_mem he))
  obtain ⟨r', b', trades', new, hloop, hw', hhanded, hengine, hminted, htypes⟩ :=
    apply_loop draw ht.cached (hw.set_trades href honly) ht.handed ht.engine p.drawn hes
  have hpoll : RiskEngine.poll draw p.latest (p.risk, p.drawn, p.bus) =
      .ok (r', p.drawn + new.length, b') := by
    rw [RiskEngine.poll, hread]
    exact hloop
  simp only [Pipeline.step, hpoll, Except.toOption, bind, Option.bind, pure,
    Option.some.injEq] at hstep
  subst hstep
  have hlog : (new.foldl ConsumerGroup.add G.risk).log = G.risk.log ++ new :=
    ConsumerGroup.log_addAll ..
  obtain ⟨d, hordered⟩ := ht.ordered
  obtain ⟨l', d', hread'⟩ := hordered.takeNew rfl 10
  have hidle : ∀ id, (G.trades.takeNew 10).pending id = none := fun id => by
    rw [ConsumerGroup.pending_takeNew, ht.idle, ite_self]
  have hl := hread'.eq_next hidle
  subst hl
  refine ⟨_, xs ++ (G.trades.unread 10).map Prod.snd, trades', all ++ new, ys, hw', ?_,
    hm.add_risk hminted htypes hlog,
    hp.grow ⟨[], (List.append_nil _).symm⟩ rfl ⟨new, hlog⟩ (ConsumerGroup.next_addAll ..)⟩
  refine ⟨ht.sound, ?_, ?_, hidle, ⟨d', hread'⟩, hhanded, hlog ▸ hengine, ht.cached, ht.quotes⟩
  · exact (ConsumerGroup.log_takeNew (g := G.trades) 10).symm ▸ ht.relayed
  · exact (ConsumerGroup.log_takeNew (g := G.trades) 10).symm ▸ ht.events

/-- Entries that the gateway has not seen are pushed. -/
theorem notes_new {ys : List Event} {gw : Gateway} (hseen : gw.seen = ys.map (·.event_id))
    (hpushed : gw.pushed = ys.map fun e => (e.event_type, Gateway.label e.data))
    {es : List (Nat × Event)} (hids : ((ys ++ es.map Prod.snd).map (·.event_id)).Nodup) :
    let gw' := es.foldl (fun gw e => gw.note e.2) gw
    gw'.seen = (ys ++ es.map Prod.snd).map (·.event_id) ∧
      gw'.pushed = (ys ++ es.map Prod.snd).map fun e => (e.event_type, Gateway.label e.data) := by
  induction es generalizing ys gw with
  | nil => exact ⟨by rwa [List.map_nil, List.append_nil], by rwa [List.map_nil, List.append_nil]⟩
  | cons e es ih =>
    have hsplit : ys ++ (e :: es).map Prod.snd = (ys ++ [e.2]) ++ es.map Prod.snd := by simp
    rw [hsplit] at hids ⊢
    have hnew : e.2.event_id ∉ gw.seen := by
      rw [hseen]
      rw [List.map_append, List.map_append] at hids
      have hfront := (List.nodup_append.mp hids).1
      exact fun hmem => (List.nodup_append.mp hfront).2.2 _ hmem _ (by simp) rfl
    have hnote : gw.note e.2 = ⟨gw.seen ++ [e.2.event_id],
        gw.pushed ++ [(e.2.event_type, Gateway.label e.2.data)]⟩ := if_neg hnew
    refine ih ?_ ?_ hids
    · dsimp only
      rw [hnote, hseen, List.map_append, List.map_singleton]
    · dsimp only
      rw [hnote, hpushed, List.map_append, List.map_singleton]

/-- A stretch of one stream that lies behind what has been pushed of it. -/
theorem nodup_append_new {all ys log : List Event} (hnodup : (all.map (·.event_id)).Nodup)
    {kind : Event → Bool} (hlog : all.filter kind = log) (hys : ∀ y ∈ ys, y ∈ all)
    (hids : (ys.map (·.event_id)).Nodup) {n : Nat} (hpushed : ys.filter kind = log.take n)
    {new : List Event} (hnew : new <+: log.drop n) :
    ((ys ++ new).map (·.event_id)).Nodup := by
  have hlogNodup : (log.map (·.event_id)).Nodup :=
    hnodup.sublist ((hlog ▸ List.filter_sublist).map _)
  have hsub : new.Sublist log := hnew.sublist.trans (List.drop_sublist ..)
  rw [List.map_append]
  refine List.nodup_append.mpr ⟨hids, hlogNodup.sublist (hsub.map _), ?_⟩
  intro a ha b hb hab
  obtain ⟨y, hy, rfl⟩ := List.mem_map.mp ha
  obtain ⟨e, he, rfl⟩ := List.mem_map.mp hb
  have heall : e ∈ all.filter kind := hlog ▸ hsub.subset he
  have hye : y = e := List.inj_on_of_nodup_map hnodup (hys y hy) (List.mem_filter.mp heall).1 hab
  subst hye
  have hytake : y ∈ log.take n := hpushed ▸ List.mem_filter.mpr ⟨hy, (List.mem_filter.mp heall).2⟩
  exact List.disjoint_take_drop (List.Nodup.of_map _ hlogNodup) (Nat.le_refl n) hytake
    (hnew.subset he)

theorem not_isRisk_of_isTick {e : Event} (h : isTick e = true) : isRisk e = false := by
  rw [isTick, decide_eq_true_iff] at h
  rw [isRisk, h]
  decide

theorem not_isTick_of_isRisk {e : Event} (h : isRisk e = true) : isTick e = false := by
  rw [isRisk, decide_eq_true_iff] at h
  rw [isTick, h]
  decide

/-- What is pushed of a stream goes on where it stood. -/
theorem filter_append_unread {ys log : List Event} {kind : Event → Bool} {g : ConsumerGroup Event}
    (hlog : g.log = log) (hpushed : ys.filter kind = log.take g.next)
    (hkind : ∀ e ∈ (g.unread 10).map Prod.snd, kind e = true) :
    (ys ++ (g.unread 10).map Prod.snd).filter kind = log.take (g.next + (g.unread 10).length) := by
  rw [List.filter_append, hpushed, List.filter_eq_self.mpr hkind, ConsumerGroup.map_snd_unread, hlog,
    ← between_zero, between_append log (Nat.zero_le _) (Nat.le_add_right ..), between_zero]

theorem unread_prefix_drop (g : ConsumerGroup Event) :
    (g.unread 10).map Prod.snd <+: g.log.drop g.next := by
  rw [ConsumerGroup.map_snd_unread, between_eq_take]
  exact List.take_prefix ..

theorem next_takeNew_le {g : ConsumerGroup Event} (h : g.next ≤ g.log.length) :
    (g.takeNew 10).next ≤ (g.takeNew 10).log.length := by
  have hlen : (g.unread 10).length ≤ (after g.log g.next).length := List.length_take_le' ..
  rw [length_after] at hlen
  rw [ConsumerGroup.next_takeNew, ConsumerGroup.log_takeNew]
  omega

theorem Pushing.mem_all {gw : Gateway} {ys all : List Event} {n : Nat} (h : Pushing gw G ys)
    (hm : Minting draw n G all) {y : Event} (hy : y ∈ ys) : y ∈ all := by
  rcases h.kinds y hy with hkind | hkind
  · have hmem : y ∈ G.ticks.log.take G.ticks.next := h.ticks ▸ List.mem_filter.mpr ⟨hy, hkind⟩
    exact (List.mem_filter.mp (hm.ticks ▸ List.mem_of_mem_take hmem)).1
  · have hmem : y ∈ G.risk.log.take G.risk.next := h.risk ▸ List.mem_filter.mpr ⟨hy, hkind⟩
    exact (List.mem_filter.mp (hm.risk ▸ List.mem_of_mem_take hmem)).1

theorem Pushing.push_ticks {gw : Gateway} {ys all : List Event} {n : Nat} (h : Pushing gw G ys)
    (hdraw : ∀ m n, (draw m).event_id = (draw n).event_id → m = n) (hm : Minting draw n G all) :
    Pushing ((G.ticks.unread 10).foldl (fun gw e => gw.note e.2) gw)
      { G with ticks := G.ticks.takeNew 10 } (ys ++ (G.ticks.unread 10).map Prod.snd) := by
  have hkind : ∀ e ∈ (G.ticks.unread 10).map Prod.snd, isTick e = true := fun e he =>
    (List.mem_filter.mp (hm.ticks ▸ (ConsumerGroup.inOrder_unread G.ticks 10).mem_log he)).2
  have hids := nodup_append_new (hm.minted.nodup hdraw) hm.ticks (fun y hy => h.mem_all hm hy) h.ids
    h.ticks (unread_prefix_drop G.ticks)
  obtain ⟨hseen, hpushed⟩ := notes_new h.seen h.pushed hids
  refine ⟨hseen, hpushed, hids, ?_, ?_, ?_, next_takeNew_le h.tickCursor, h.riskCursor⟩
  · rw [filter_append_unread rfl h.ticks hkind, ConsumerGroup.log_takeNew,
      ConsumerGroup.next_takeNew]
  · rw [List.filter_append, h.risk, List.filter_eq_nil_iff.mpr, List.append_nil]
    exact fun e he hrisk => Bool.false_ne_true ((not_isRisk_of_isTick (hkind e he)).symm.trans hrisk)
  · intro y hy
    exact (List.mem_append.mp hy).elim (h.kinds y) fun hy => .inl (hkind y hy)

theorem Pushing.push_risk {gw : Gateway} {ys all : List Event} {n : Nat} (h : Pushing gw G ys)
    (hdraw : ∀ m n, (draw m).event_id = (draw n).event_id → m = n) (hm : Minting draw n G all) :
    Pushing ((G.risk.unread 10).foldl (fun gw e => gw.note e.2) gw)
      { G with risk := G.risk.takeNew 10 } (ys ++ (G.risk.unread 10).map Prod.snd) := by
  have hkind : ∀ e ∈ (G.risk.unread 10).map Prod.snd, isRisk e = true := fun e he =>
    (List.mem_filter.mp (hm.risk ▸ (ConsumerGroup.inOrder_unread G.risk 10).mem_log he)).2
  have hids := nodup_append_new (hm.minted.nodup hdraw) hm.risk (fun y hy => h.mem_all hm hy) h.ids
    h.risk (unread_prefix_drop G.risk)
  obtain ⟨hseen, hpushed⟩ := notes_new h.seen h.pushed hids
  refine ⟨hseen, hpushed, hids, ?_, ?_, ?_, h.tickCursor, next_takeNew_le h.riskCursor⟩
  · rw [List.filter_append, h.ticks, List.filter_eq_nil_iff.mpr, List.append_nil]
    exact fun e he htick => Bool.false_ne_true ((not_isTick_of_isRisk (hkind e he)).symm.trans htick)
  · rw [filter_append_unread rfl h.risk hkind, ConsumerGroup.log_takeNew,
      ConsumerGroup.next_takeNew]
  · intro y hy
    exact (List.mem_append.mp hy).elim (h.kinds y) fun hy => .inr (hkind y hy)

theorem Flow.pump (h : Flow draw p)
    (hdraw : ∀ m n, (draw m).event_id = (draw n).event_id → m = n) {p' : Pipeline}
    (hstep : Pipeline.step draw .pump p = some p') : Flow draw p' := by
  obtain ⟨G, xs, trades, all, ys, hw, ht, hm, hp⟩ := h
  obtain ⟨b₁, hticks, href₁, honly₁⟩ := pumpStream_ok hw.ticks p.gateway
  have hw₁ := hw.set_ticks href₁ honly₁
  obtain ⟨b₂, hrisk, href₂, honly₂⟩ := pumpStream_ok hw₁.risk
    ((G.ticks.unread 10).foldl (fun gw e => gw.note e.2) p.gateway)
  have hw₂ := hw₁.set_risk href₂ honly₂
  have hpump : Gateway.pump (p.gateway, p.bus) = .ok ((G.risk.unread 10).foldl
      (fun gw e => gw.note e.2) ((G.ticks.unread 10).foldl (fun gw e => gw.note e.2) p.gateway),
      b₂) := by
    simp only [Gateway.pump, List.foldlM_cons, List.foldlM_nil, hticks, hrisk, bind, Except.bind]
    rfl
  simp only [Pipeline.step, hpump, Except.toOption, bind, Option.bind, pure,
    Option.some.injEq] at hstep
  subst hstep
  have hlog₁ : (G.ticks.takeNew 10).log = G.ticks.log := ConsumerGroup.log_takeNew ..
  have hlog₂ : (G.risk.takeNew 10).log = G.risk.log := ConsumerGroup.log_takeNew ..
  have hm₁ : Minting draw p.drawn { G with ticks := G.ticks.takeNew 10 } all :=
    ⟨hm.minted, hm.length, hlog₁ ▸ hm.ticks, hm.risk⟩
  refine ⟨_, xs, trades, all, _, hw₂, ?_, ⟨hm.minted, hm.length, hlog₁ ▸ hm.ticks,
    hlog₂ ▸ hm.risk⟩, (hp.push_ticks hdraw hm).push_risk hdraw hm₁⟩
  refine ⟨ht.sound, ht.relayed, ht.events, ht.idle, ht.ordered, ht.handed, ?_, ?_, ?_⟩
  · exact hlog₁.symm ▸ hlog₂.symm ▸ ht.engine
  · exact hlog₁.symm ▸ ht.cached
  · exact hlog₁.symm ▸ ht.quotes

theorem flow_new (draw : Nat → Draw) : Flow draw .new := by
  let g : ConsumerGroup Event := ⟨[], 0, fun _ => none, 0, []⟩
  have hw : Wiring Pipeline.new.bus ⟨g, g, g, g⟩ := by
    let b₁ : StreamBus Event := StreamBus.new.xgroup_create STREAM_TICKS GROUP 0
    let b₂ := b₁.xgroup_create STREAM_LEDGER GROUP 0
    let b₃ := b₂.xgroup_create STREAM_TICKS GROUP_GATEWAY 0
    have h₁ : Refines b₁ STREAM_TICKS GROUP g := Refines.xgroup_create rfl 0
    have h₂ : Refines b₂ STREAM_LEDGER GROUP g := Refines.xgroup_create rfl 0
    have h₃ : Refines b₃ STREAM_TICKS GROUP_GATEWAY g := Refines.xgroup_create rfl 0
    have h₄ : Refines Pipeline.new.bus STREAM_RISK GROUP_GATEWAY g :=
      Refines.xgroup_create (b := b₃) rfl 0
    exact ⟨h₁.congr rfl rfl, h₂.congr rfl rfl, h₃.congr rfl rfl, h₄⟩
  refine ⟨_, [], [], [], [], hw, ?_, ⟨rfl, rfl, rfl, rfl⟩, ?_⟩
  · refine ⟨⟨rfl, Db.Books.new⟩, Relayed.nil, fun _ he => absurd he List.not_mem_nil,
      fun _ => rfl, ⟨0, ?_⟩, ⟨rfl⟩, ⟨rfl, rfl, fun _ => rfl, fun _ => rfl, .nil⟩,
      fun _ _ hprice => (by cases hprice), fun _ he => absurd he List.not_mem_nil⟩
    exact ⟨Nat.le_refl _, Nat.le_refl _, fun _ => ⟨fun hne => absurd rfl hne, fun hid =>
      absurd hid.1 (Nat.not_lt.mpr hid.2)⟩, Nat.le_refl _, Nat.le_refl _, rfl⟩
  · exact ⟨rfl, rfl, List.nodup_nil, rfl, rfl, fun _ hy => absurd hy List.not_mem_nil,
      Nat.le_refl _, Nat.le_refl _⟩

theorem flow_of_reach (hdraw : ∀ m n, (draw m).event_id = (draw n).event_id → m = n)
    (h : Reach (Pipeline.step draw) Pipeline.Admitted (· = .new) p) : Flow draw p := by
  refine h.invariant (fun p hp => hp ▸ flow_new draw) fun p a p' hp ha hstep => ?_
  cases a with
  | produce_ticks prices correlation_id symbol => exact hp.produce correlation_id symbol prices hstep
  | refresh => exact hp.refresh hstep
  | post_trade req crash_point d => exact hp.post_trade ha hstep
  | relay_outbox inject_dup effects => exact hp.relay inject_dup effects hstep
  | poll => exact hp.poll hstep
  | pump => exact hp.pump hdraw hstep
  | duplicate position => exact hp.duplicate hstep
  | setid start => exact hp.setid ha hstep

theorem ledgerEvent_injective {t t' : Envelope LedgerData} (h : ledgerEvent t = ledgerEvent t') :
    t = t' := by
  cases t
  cases t'
  simpa [ledgerEvent] using h

/-- The trades that were applied are the first ones of the outbox. -/
theorem Trading.front {xs : List Event} {trades : List (Envelope LedgerData)}
    (h : Trading p G xs trades) : trades <+: p.ledger.db.outbox_events.map (·.payload) := by
  obtain ⟨d, hordered⟩ := h.ordered
  have hfront := h.relayed.front d
  rw [← hordered.applied, h.handed.first] at hfront
  have htake := List.prefix_iff_eq_take.mp hfront
  have hmap : payloads ledgerEvent p.ledger.db.outbox_events =
      (p.ledger.db.outbox_events.map (·.payload)).map ledgerEvent := by
    rw [payloads, List.map_map]
    rfl
  rw [hmap, ← List.map_take] at htake
  have heq := List.map_injective_iff.mpr (fun _ _ => ledgerEvent_injective) htake
  exact heq ▸ List.take_prefix ..

end Flow

/-- Nothing is unsent, and nothing is left for the engine or the gateway. -/
def Pipeline.Quiet (p : Pipeline) : Prop :=
  p.ledger.unsent_outbox = [] ∧
    (∀ g ∈ p.bus.groups (STREAM_LEDGER, GROUP), p.bus.stream_len STREAM_LEDGER ≤ g.last.toNat) ∧
    ∀ g ∈ p.bus.groups (STREAM_RISK, GROUP_GATEWAY), p.bus.stream_len STREAM_RISK ≤ g.last.toNat

instance : DecidablePred Pipeline.Quiet := fun p =>
  inferInstanceAs (Decidable (p.ledger.unsent_outbox = [] ∧
    (∀ g ∈ p.bus.groups (STREAM_LEDGER, GROUP), p.bus.stream_len STREAM_LEDGER ≤ g.last.toNat) ∧
    ∀ g ∈ p.bus.groups (STREAM_RISK, GROUP_GATEWAY), p.bus.stream_len STREAM_RISK ≤ g.last.toNat))

/-- The account of a valuation, as the gateway pushes it. -/
def pushedRisk (p : Pipeline) : List (String × String) :=
  p.gateway.pushed.filter (·.1 = "RiskComputed")

theorem Refines.le_next {b : StreamBus Event} {stream group : String} {g : ConsumerGroup Event}
    (h : Refines b stream group g)
    (hq : ∀ grp ∈ b.groups (stream, group), b.stream_len stream ≤ grp.last.toNat) :
    g.log.length ≤ g.next := by
  obtain ⟨last, hgroup, hlast⟩ := h.cursor
  have hle : b.stream_len stream ≤ last.toNat := hq _ hgroup
  rwa [h.stream_len, hlast] at hle

/-- **One valuation for each trade.** The `n`th event on `risk.updates` is that of
the `n`th committed trade: it values what the trades up to it have left, at a
price from `market.ticks`. The gateway pushes these events in their order, each
once; in the end one for every trade. -/
theorem valued_once {draw : Nat → Draw}
    (hdraw : ∀ m n, (draw m).event_id = (draw n).event_id → m = n) {p : Pipeline}
    (h : Reach (Pipeline.step draw) Pipeline.Admitted (· = .new) p) :
    let trades := p.ledger.db.outbox_events.map (·.payload)
    let ticks := (p.bus.entries STREAM_TICKS).map Prod.snd
    let valuations := (p.bus.entries STREAM_RISK).map Prod.snd
    valuations.length = p.risk.applied ∧
      (∀ i e, valuations[i]? = some e →
        ∃ t, trades[i]? = some t ∧ Values ticks (trades.take (i + 1)) t e) ∧
      (∃ n, pushedRisk p = (valuations.take n).map fun e => (e.event_type, Gateway.label e.data)) ∧
      (p.Quiet → valuations.length = p.ledger.je_count ∧
        pushedRisk p = trades.map fun t => ("RiskComputed", t.data.account_id)) := by
  intro trades ticks valuations
  obtain ⟨G, xs, applied, all, ys, hw, ht, hm, hp⟩ := flow_of_reach hdraw h
  have hvaluations : valuations = G.risk.log := by
    rw [← map_snd_after_zero G.risk.log, ← hw.risk.entries]
  have hticks : ticks = G.ticks.log := by
    rw [← map_snd_after_zero G.ticks.log, ← hw.ticks.entries]
  have hfront : applied <+: trades := ht.front
  have hvalues : ∀ i e, valuations[i]? = some e →
      ∃ t, trades[i]? = some t ∧ Values ticks (trades.take (i + 1)) t e := by
    intro i e he
    rw [hvaluations] at he
    obtain ⟨t, htrade, hv⟩ := ht.engine.valued.values he
    have hlt := (List.getElem?_eq_some_iff.mp htrade).1
    obtain ⟨later, hlater⟩ := hfront
    refine ⟨t, by rw [← hlater, List.getElem?_append_left hlt, htrade], ?_⟩
    rw [hticks, ← hlater, List.take_append_of_le_length hlt]
    exact hv
  have hpushed : pushedRisk p =
      (G.risk.log.take G.risk.next).map fun e => (e.event_type, Gateway.label e.data) := by
    rw [pushedRisk, hp.pushed, List.filter_map, ← hp.risk]
    rfl
  have hlength := ht.engine.valued.length
  refine ⟨by rw [hvaluations, hlength, ht.engine.applied], hvalues,
    ⟨G.risk.next, by rw [hvaluations, hpushed]⟩, fun hq => ?_⟩
  obtain ⟨hunsent, htrades, hrisk⟩ := hq
  have hsent : p.ledger.db.outbox_events.filter (fun row => !row.sent) = [] :=
    List.map_eq_nil_iff.mp hunsent
  obtain ⟨d, hordered⟩ := ht.ordered
  have hnext := hw.trades.le_next htrades
  have hall : applied.length = trades.length := by
    have hd : G.trades.log.length ≤ d := hnext.trans hordered.acked
    have hfirst := ht.handed.first
    rw [hordered.applied, List.take_of_length_le hd, ht.relayed.all_sent hsent] at hfirst
    have hlen := congrArg List.length hfirst
    rw [payloads, List.length_map, List.length_map] at hlen
    rw [List.length_map, hlen]
  have hcount : trades.length = p.ledger.je_count := by
    rw [List.length_map, Ledger.je_count, ← ht.sound.2.length_events, Db.events, List.length_map]
  refine ⟨by rw [hvaluations, hlength, hall, hcount], ?_⟩
  rw [hpushed, List.take_of_length_le (hw.risk.le_next hrisk)]
  refine List.ext_getElem? fun i => ?_
  rw [List.getElem?_map, List.getElem?_map]
  cases he : G.risk.log[i]? with
  | none =>
    rw [List.getElem?_eq_none_iff, hlength, hall] at he
    rw [List.getElem?_eq_none_iff.mpr he]
    rfl
  | some e =>
    obtain ⟨t, htrade, hv⟩ := hvalues i e (hvaluations ▸ he)
    obtain ⟨d, price, hdata, hacc, -⟩ := hv.data
    rw [htrade, Option.map_some, Option.map_some, hv.type, hdata, Gateway.label, hacc]

theorem valued_once_after_duplicates : ∃ p : Pipeline, p.Quiet ∧
    ((p.bus.entries STREAM_RISK).map Prod.snd).length = p.ledger.je_count := by
  let draw (n : Nat) : Draw := ⟨String.ofList (List.replicate n 'd'), "t", "t"⟩
  have hdraw : ∀ m n, (draw m).event_id = (draw n).event_id → m = n := fun m n h => by
    have hlist := congrArg String.length h
    simpa [draw] using hlist
  obtain ⟨p, hreach, hp⟩ := Reach.exists_of_run (Pipeline.step draw) Pipeline.Admitted (· = .new)
    [.produce_ticks [100, 102] "corr-0" "AAPL", .refresh, .post_trade (buy "r1") none (draws "1"),
      .relay_outbox true 3, .poll, .pump,
      .post_trade (buy "r2") (some .after_commit_before_publish) (draws "2"), .relay_outbox false 3,
      .duplicate 0, .setid 0, .poll, .pump]
    (fun p => decide p.Quiet) (s := .new) rfl (by decide +kernel)
  have hquiet := of_decide_eq_true hp
  exact ⟨p, hquiet, ((valued_once hdraw hreach).2.2.2 hquiet).1⟩

end TradePulse.Outbox
