import TradePulse.Ledger.Books
import TradePulse.Ledger.Limits
import TradePulse.Ledger.Relay
import TradePulse.Core.Rows
import Mathlib.Data.List.Nodup

/-! # The last event on the stream and the net position

`postTrade` reads the clock, then the position, and commits last; the relay
publishes by the clock reading. For one account and symbol the outbox is a
queue: rows already sent, then rows that wait, in the order of their commits.
As long as a trade commits on a current position and with a later clock
reading than every row of its pair that waits, the relay empties the queue
from its head, and the last entry carries the net position. -/
namespace TradePulse.Ledger
open TradePulse.Core TradePulse.Core.Runs TradePulse.Core.Process

abbrev EventRow := OutboxRow LedgerUpdatedEnvelope

abbrev EventStream := List (StreamEntry LedgerUpdatedEnvelope)

/-- The outbox table of the committed database. -/
def ledgerOutbox : Outbox LedgerState LedgerUpdatedEnvelope where
  rows s := s.db.outbox_events
  markSent id s := { s with
    db := { s.db with outbox_events := s.db.outbox_events.map fun r =>
      if r.event_id = id then { r with sent := true } else r } }
  rows_markSent _ _ := rfl

/-- One relay beside any number of transactions. -/
abbrev ledgerRelay (rules : ComplianceRules) :=
  relayMachine ledgerOutbox (fun p : LedgerUpdatedEnvelope => some p.schema_version)
    (ledgerStep rules)

abbrev StreamWorld := RelayWorld LedgerState LedgerUpdatedEnvelope

/-! ## Statement -/

/-- The event is about this account and symbol. -/
def LedgerUpdatedEnvelope.concerns (e : LedgerUpdatedEnvelope) (a y : String) : Bool :=
  e.data.account_id = a && e.data.symbol = y

/-- The last entry on the stream about an account and symbol. -/
def lastEntry (a y : String) (stream : EventStream) : Option LedgerUpdatedEnvelope :=
  ((stream.map (·.fields.event)).filter (·.concerns a y)).getLast?

/-- For every account and symbol traded, the stream ends on the net position. -/
def StreamAgrees (w : StreamWorld) : Prop :=
  ∀ a y, (∃ t ∈ w.store.db.trades, t.isPosted a y) → ∃ e, lastEntry a y w.stream = some e ∧
    e.data.position_after = w.store.db.netPosition a y

/-- The relay has nothing left to publish. -/
def Drained (w : StreamWorld) : Prop := ∀ r ∈ w.store.db.outbox_events, r.sent = true

/-- A trade commits with the symbol it was asked for and with a later clock
reading than every unsent row of its account and symbol. -/
def commitsInOrder (s : LedgerState) : LedgerAct → Prop
  | .commit n => ∀ t ∈ s.txns[n]?, ∀ tr ∈ postedTrades t.trace,
      ∀ o ∈ (Transactions.writesOf t.trace).filterMap Write.outbox?,
        tr.symbol.val = o.payload.data.symbol ∧
        ∀ p ∈ s.db.outbox_events, p.sent = false →
          p.payload.concerns o.payload.data.account_id o.payload.data.symbol →
          p.created_at < o.created_at
  | _ => True

instance (s : LedgerState) : (a : LedgerAct) → Decidable (commitsInOrder s a)
  | .commit n => inferInstanceAs (Decidable (∀ t ∈ s.txns[n]?, ∀ tr ∈ postedTrades t.trace,
      ∀ o ∈ (Transactions.writesOf t.trace).filterMap Write.outbox?,
        tr.symbol.val = o.payload.data.symbol ∧
        ∀ p ∈ s.db.outbox_events, p.sent = false →
          p.payload.concerns o.payload.data.account_id o.payload.data.symbol →
          p.created_at < o.created_at))
  | .begin _ | .stmt .. | .abort _ => .isTrue trivial

abbrev StreamGuard :=
  Guard (RelayCall LedgerUpdatedEnvelope) RelayEntry (RelayChoice LedgerUpdatedEnvelope)
    LedgerAct StreamWorld

/-- Any relay, and transactions whose steps meet `ok`. -/
def besides (ok : LedgerState → LedgerAct → Prop) : StreamGuard where
  enter _ _ := True
  call _ _ _ := True
  crash _ := True
  env a w := ok w.store a

/-- A relay that neither dies nor sees an exception, and transactions on
quantities of at most four decimals. -/
def undisturbed : StreamGuard where
  enter _ _ := True
  call _ o _ := match o with
    | .rows _ | .done => True
    | .raiseBefore | .raiseAfter => False
  crash _ := False
  env a w := exactQuantities w.store a

/-! ## The queue of a pair -/

def pairRows (a y : String) (rows : List EventRow) : List EventRow :=
  rows.filter (·.payload.concerns a y)

def settled (a y : String) (rows : List EventRow) : List EventRow :=
  (pairRows a y rows).filter (·.sent)

def waiting (a y : String) (rows : List EventRow) : List EventRow :=
  unsentRows (pairRows a y rows)

/-- The queue of an account and symbol: sent rows come first, waiting rows are
in clock order, and the stream ends on the last of the former or the first of
the latter. -/
structure Queued (a y : String) (rows : List EventRow) (stream : EventStream) : Prop where
  split : pairRows a y rows = settled a y rows ++ waiting a y rows
  sorted : (waiting a y rows).Pairwise fun p q => p.created_at < q.created_at
  last : lastEntry a y stream = (settled a y rows).getLast?.map (·.payload) ∨
    ∃ x, (waiting a y rows).head? = some x ∧ lastEntry a y stream = some x.payload

/-- The last row of an account and symbol traded carries the net position. -/
def Positioned (a y : String) (db : Db) : Prop :=
  (∃ t ∈ db.trades, t.isPosted a y) → ∃ r, (pairRows a y db.outbox_events).getLast? = some r ∧
    r.payload.data.position_after = db.netPosition a y

theorem StreamAgrees.of_queued {w : StreamWorld}
    (hq : ∀ a y, Queued a y w.store.db.outbox_events w.stream)
    (hp : ∀ a y, Positioned a y w.store.db) (hd : Drained w) : StreamAgrees w := by
  intro a y htraded
  have hnone : waiting a y w.store.db.outbox_events = [] := by
    refine List.filter_eq_nil_iff.mpr fun r hr => ?_
    simp [hd r (List.mem_filter.mp hr).1]
  obtain ⟨r, hr, hpos⟩ := hp a y htraded
  rw [(hq a y).split, hnone, List.append_nil] at hr
  obtain hlast | ⟨x, hx, -⟩ := (hq a y).last
  · rw [hr] at hlast
    exact ⟨r.payload, hlast, hpos⟩
  · rw [hnone] at hx
    cases hx

/-! ## Commits -/

@[simp] theorem pairRows_append (a y : String) (rows new : List EventRow) :
    pairRows a y (rows ++ new) = pairRows a y rows ++ pairRows a y new := List.filter_append ..

@[simp] theorem pairRows_singleton (a y : String) (o : EventRow) :
    pairRows a y [o] = if o.payload.concerns a y then [o] else [] := by
  by_cases h : o.payload.concerns a y <;> simp [pairRows, h]

theorem pairRows_cons (a y : String) (x : EventRow) (rows : List EventRow) :
    pairRows a y (x :: rows) =
      if x.payload.concerns a y then x :: pairRows a y rows else pairRows a y rows := by
  by_cases h : x.payload.concerns a y <;> simp [pairRows, h]

/-- A row that is not yet sent and later than all that wait joins at the end. -/
theorem Queued.snoc {a y : String} {rows : List EventRow} {stream : EventStream}
    (h : Queued a y rows stream) {o : EventRow} (hnew : o.sent = false)
    (hlater : o.payload.concerns a y → ∀ p ∈ waiting a y rows, p.created_at < o.created_at) :
    Queued a y (rows ++ [o]) stream ∧ waiting a y rows <+: waiting a y (rows ++ [o]) := by
  by_cases ho : o.payload.concerns a y
  · have hs : settled a y (rows ++ [o]) = settled a y rows := by
      simp [settled, ho, hnew, List.filter_append]
    have hw : waiting a y (rows ++ [o]) = waiting a y rows ++ [o] := by
      simp [waiting, unsentRows, ho, hnew, List.filter_append]
    refine ⟨⟨?_, ?_, ?_⟩, hw ▸ List.prefix_append ..⟩
    · rw [pairRows_append, pairRows_singleton, if_pos ho, h.split, hs, hw, List.append_assoc]
    · rw [hw]
      refine List.pairwise_append.mpr ⟨h.sorted, List.pairwise_singleton .., fun p hp q hq => ?_⟩
      rw [List.mem_singleton.mp hq]
      exact hlater ho p hp
    · rw [hs, hw]
      obtain hlast | ⟨x, hx, hlast⟩ := h.last
      · exact .inl hlast
      · exact .inr ⟨x, by rw [List.head?_append, hx]; rfl, hlast⟩
  · have hp : pairRows a y (rows ++ [o]) = pairRows a y rows := by simp [ho]
    have hw : waiting a y (rows ++ [o]) = waiting a y rows := by rw [waiting, hp, waiting]
    refine ⟨⟨?_, ?_, ?_⟩, hw ▸ List.prefix_refl _⟩
    · rw [hw, hp, settled, hp]
      exact h.split
    · rw [hw]
      exact h.sorted
    · rw [hw, settled, hp]
      exact h.last

/-! ## Publishing and marking -/

@[simp] theorem lastEntry_snoc (a y : String) (stream : EventStream)
    (e : StreamEntry LedgerUpdatedEnvelope) :
    lastEntry a y (stream ++ [e]) =
      if e.fields.event.concerns a y then some e.fields.event else lastEntry a y stream := by
  by_cases h : e.fields.event.concerns a y <;> simp [lastEntry, List.filter_append, h]

/-- Publishing the first row that waits of its pair. -/
theorem Queued.append {a y : String} {rows : List EventRow} {stream : EventStream}
    (h : Queued a y rows stream) {x : EventRow}
    (hx : x.payload.concerns a y → (waiting a y rows).head? = some x)
    {e : StreamEntry LedgerUpdatedEnvelope} (he : e.fields.event = x.payload) :
    Queued a y rows (stream ++ [e]) := by
  refine ⟨h.split, h.sorted, ?_⟩
  rw [lastEntry_snoc, he]
  by_cases hc : x.payload.concerns a y
  · rw [if_pos hc]
    exact .inr ⟨x, hx hc, rfl⟩
  · rw [if_neg hc]
    exact h.last

/-- `UPDATE … SET sent = TRUE`. -/
def markEvent (id : UUID) (rows : List EventRow) : List EventRow :=
  rows.map fun r => if r.event_id = id then { r with sent := true } else r

theorem markEvent_ids (id : UUID) (rows : List EventRow) :
    (markEvent id rows).map (·.event_id) = rows.map (·.event_id) := by
  refine map_key_update (fun r h => ?_) rows
  exact h

theorem markEvent_of_not_mem {id : UUID} {rows : List EventRow}
    (h : id ∉ rows.map (·.event_id)) : markEvent id rows = rows :=
  update_of_not_mem h

theorem pairRows_markEvent (a y : String) (id : UUID) (rows : List EventRow) :
    pairRows a y (markEvent id rows) = markEvent id (pairRows a y rows) := by
  refine filter_update (fun r _ => ?_) rows
  rfl

theorem waiting_sublist (a y : String) (rows : List EventRow) :
    (waiting a y rows).Sublist rows :=
  List.filter_sublist.trans List.filter_sublist

/-- Marking the row that has been published last: it leaves the head of its
pair's queue, and no other queue changes. -/
theorem Queued.mark {a y : String} {rows : List EventRow} {stream : EventStream}
    (h : Queued a y rows stream) (hnd : (rows.map (·.event_id)).Nodup) {x : EventRow}
    (hmem : x ∈ rows) (hhead : x.payload.concerns a y → (waiting a y rows).head? = some x ∧
      lastEntry a y stream = some x.payload) :
    Queued a y (markEvent x.event_id rows) stream ∧
      waiting a y (markEvent x.event_id rows) =
        if x.payload.concerns a y then (waiting a y rows).tail else waiting a y rows := by
  by_cases hc : x.payload.concerns a y
  · obtain ⟨hx, hlast⟩ := hhead hc
    obtain ⟨rest, hrest⟩ := List.head?_eq_some_iff.mp hx
    have hpair := h.split
    rw [hrest] at hpair
    have hids : ((settled a y rows ++ x :: rest).map (·.event_id)).Nodup :=
      hpair ▸ (List.filter_sublist.map _).nodup hnd
    rw [List.map_append, List.map_cons, List.nodup_append, List.nodup_cons] at hids
    obtain ⟨-, ⟨hxr, -⟩, hapart⟩ := hids
    have hmarked : pairRows a y (markEvent x.event_id rows) =
        settled a y rows ++ { x with sent := true } :: rest := by
      rw [pairRows_markEvent, hpair, markEvent, List.map_append, List.map_cons, if_pos rfl]
      congr 1
      · exact markEvent_of_not_mem fun hm => hapart _ hm _ (List.mem_cons_self ..) rfl
      · exact congrArg _ (markEvent_of_not_mem hxr)
    have hunsent : ∀ r ∈ rest, r.sent = false := fun r hr => by
      have : r ∈ waiting a y rows := hrest ▸ List.mem_cons_of_mem _ hr
      simpa using (List.mem_filter.mp this).2
    have hsent : ∀ r ∈ settled a y rows, r.sent = true := fun r hr => (List.mem_filter.mp hr).2
    have hs : settled a y (markEvent x.event_id rows) =
        settled a y rows ++ [{ x with sent := true }] := by
      rw [settled, hmarked, List.filter_append, List.filter_eq_self.mpr hsent,
        List.filter_cons_of_pos rfl,
        List.filter_eq_nil_iff.mpr fun r hr => by simp [hunsent r hr]]
    have hw : waiting a y (markEvent x.event_id rows) = rest := by
      rw [waiting, hmarked, unsentRows, List.filter_append,
        List.filter_eq_nil_iff.mpr fun r hr => by simp [hsent r hr],
        List.filter_cons_of_neg (by simp), List.nil_append]
      exact List.filter_eq_self.mpr fun r hr => by simp [hunsent r hr]
    refine ⟨⟨?_, ?_, .inl ?_⟩, ?_⟩
    · rw [hmarked, hs, hw, List.append_assoc]
      rfl
    · rw [hw]
      have := h.sorted
      rw [hrest] at this
      exact (List.pairwise_cons.mp this).2
    · rw [hs, List.getLast?_concat, hlast]
      rfl
    · rw [if_pos hc, hrest, hw]
      rfl
  · have hp : pairRows a y (markEvent x.event_id rows) = pairRows a y rows := by
      rw [pairRows_markEvent]
      refine markEvent_of_not_mem fun hm => hc ?_
      obtain ⟨r, hr, hid⟩ := List.mem_map.mp hm
      obtain ⟨hr, hrc⟩ := List.mem_filter.mp hr
      exact List.inj_on_of_nodup_map hnd hr hmem hid ▸ hrc
    have hw : waiting a y (markEvent x.event_id rows) = waiting a y rows := by
      rw [waiting, hp, waiting]
    refine ⟨⟨?_, ?_, ?_⟩, by rw [if_neg hc, hw]⟩
    · rw [hw, hp, settled, hp]
      exact h.split
    · rw [hw]
      exact h.sorted
    · rw [hw, settled, hp]
      exact h.last

/-- What a relay selects of a pair is a prefix of its queue. -/
theorem Queued.select {a y : String} {rows order : List EventRow} {stream : EventStream}
    (h : Queued a y rows stream) (hord : IsOrdered rows order) (limit : Nat) :
    pairRows a y (order.take limit) <+: waiting a y rows := by
  have hperm : (pairRows a y order).Perm (waiting a y rows) := by
    have := hord.1.filter (·.payload.concerns a y)
    rwa [unsentRows, List.filter_comm] at this
  have heq : pairRows a y order = waiting a y rows := by
    refine List.Perm.eq_of_pairwise ?_
      (hord.2.sublist List.filter_sublist) (h.sorted.imp fun hlt => hlt.le) hperm
    intro p q hp hq hpq hqp
    by_contra hne
    have hclock : ((waiting a y rows).map (·.created_at)).Nodup :=
      List.pairwise_map.mpr (h.sorted.imp fun hlt => hlt.ne)
    exact hne (List.inj_on_of_nodup_map hclock (hperm.subset hp) hq (le_antisymm hpq hqp))
  rw [← heq]
  exact (List.take_prefix ..).filter _

/-! ## What a commit does to the positions -/

theorem positionOf_eq_zero {a y : String} {ts : List Trade}
    (h : ∀ t ∈ ts, t.isPosted a y = false) : positionOf a y ts = 0 := by
  rw [positionOf, List.filter_eq_nil_iff.mpr fun t ht => by simp [h t ht]]
  rfl

/-- A commit that posts nothing on the pair. -/
theorem Positioned.frame {a y : String} {db : Db} (h : Positioned a y db) {ws : List Write}
    (ho : pairRows a y (ws.filterMap Write.outbox?) = [])
    (ht : ∀ t ∈ ws.filterMap Write.trade?, t.isPosted a y = false) :
    Positioned a y (engine.applyAll db ws) := by
  rintro ⟨t, hmem, hposted⟩
  rw [trades_applyAll, List.mem_append] at hmem
  rw [outbox_events_applyAll, pairRows_append, ho, List.append_nil, netPosition_applyAll,
    positionOf_eq_zero ht, add_zero]
  obtain hmem | hmem := hmem
  · exact h ⟨t, hmem, hposted⟩
  · rw [ht t hmem] at hposted
    cases hposted

theorem PostedRows.positioned {a y : String} {db : Db} (h : Positioned a y db)
    {req : TradeRequestDto} {v : Draws} (rows : PostedRows req v)
    (hq : Numeric.Exact 4 req.quantity) (hacc : rows.trade.account_id.val = req.account_id)
    (hsym : rows.trade.symbol.val = req.symbol)
    (hread : v.position = db.netPosition req.account_id req.symbol) :
    Positioned a y (engine.applyAll db rows.writes) := by
  obtain ⟨_, ht⟩ := rows.trade_ok
  obtain ⟨_, ho⟩ := rows.outbox_ok
  have hos : rows.writes.filterMap Write.outbox? = [rows.outbox] := rows.project _ fun _ => rfl
  have hconcerns : rows.outbox.payload.concerns a y = (req.account_id = a && req.symbol = y) := by
    rw [ho.payload]
    rfl
  by_cases hpair : req.account_id = a ∧ req.symbol = y
  · obtain ⟨rfl, rfl⟩ := hpair
    intro _
    refine ⟨rows.outbox, ?_, ?_⟩
    · rw [outbox_events_applyAll, hos, pairRows_append, pairRows_singleton, hconcerns]
      simp
    · rw [ho.payload, netPosition_applyAll, rows.trades]
      simp [Draws.envelope, hread, Trade.isPosted, hacc, hsym, ht.status, ht.signedQuantity hq,
        TradeRequestDto.signedQty, TradeRequestDto.isBuy]
  · refine h.frame ?_ fun t ht' => ?_
    · rw [hos, pairRows_singleton, hconcerns]
      simpa using hpair
    · rw [rows.trades, List.mem_singleton] at ht'
      rw [ht', Trade.isPosted, hacc, hsym]
      simpa using fun ha hy => absurd ⟨ha, hy⟩ hpair

/-! ## The ledger's steps -/

/-- The unique key of an outbox row. -/
def eventKey : Write → Option UUID
  | .outbox o => some o.event_id
  | _ => none

/-- The table has an event with the id. -/
def hasEvent (db : Db) (id : UUID) : Prop := id ∈ db.outbox_events.map (·.event_id)

/-- An event that a statement writes carries an id new to its view. -/
theorem exec_outbox {i : Statement} {w : Ambient} {db : Db} {res : i.Result} {o : EventRow}
    (h : exec i w db = .ok (res, some (.outbox o))) : ¬ hasEvent db o.event_id := by
  cases i with
  | insertOutbox =>
    obtain ⟨o', ho', he⟩ := inserted_ok.mp h
    cases he
    have ho := insertOutbox_ok ho'
    intro hm
    obtain ⟨p, hp, hid⟩ := List.mem_map.mp hm
    exact ho.new_id p hp (hid.trans ho.event_id)
  | updateCash i d =>
    cases hc : db.updateCash i d with
    | error e => simp [exec, hc, Except.map] at h
    | ok o => cases o <;> simp [exec, hc, Except.map] at h
  | _ => simp [exec] at h

theorem events_reserved {rules : ComplianceRules} {s s' : LedgerState} {a : LedgerAct}
    (h : Transactions.Reserved eventKey hasEvent s)
    (hs : Transactions.Step engine (service rules) s a s') :
    Transactions.Reserved eventKey hasEvent s' := by
  refine h.step (fun db b id => ?_) (fun i w db res b id hexec hkey => ?_)
    (fun b b' id hb hb' => ?_) hs
  · cases b <;> simp [engine, Db.apply, eventKey, hasEvent, @eq_comm _ id]
  · cases b with
    | outbox o =>
      cases hkey
      exact exec_outbox hexec
    | _ => cases hkey
  · cases b with
    | outbox o =>
      cases b' with
      | outbox o' =>
        simp only [eventKey, Option.some.injEq] at hb hb'
        simp [engine, Write.conflicts, hb, hb']
      | _ => cases hb'
    | _ => cases hb

/-- What holds of the ledger and the stream throughout. -/
structure Ordered (rules : ComplianceRules) (s : LedgerState) (stream : EventStream) : Prop where
  faithful : ∀ t ∈ s.txns, Transactions.Faithful engine (service rules) t
  exact : ∀ t ∈ s.txns, t.call.ExactQuantity
  reserved : Transactions.Reserved eventKey hasEvent s
  nodup : (s.db.outbox_events.map (·.event_id)).Nodup
  queued : ∀ a y, Queued a y s.db.outbox_events stream
  positioned : ∀ a y, Positioned a y s.db

/-- The condition on the steps of the ledger. -/
def inOrder (s : LedgerState) (a : LedgerAct) : Prop :=
  exactQuantities s a ∧ currentPosition s a ∧ commitsInOrder s a

instance (s : LedgerState) (a : LedgerAct) : Decidable (inOrder s a) :=
  inferInstanceAs (Decidable (_ ∧ _))

/-- The events, positions and queues after a commit. -/
structure Commits (s : LedgerState) (ws : List Write) (stream : EventStream) : Prop where
  nodup : ((engine.applyAll s.db ws).outbox_events.map (·.event_id)).Nodup
  queued : ∀ a y, Queued a y (engine.applyAll s.db ws).outbox_events stream
  positioned : ∀ a y, Positioned a y (engine.applyAll s.db ws)
  grows : ∀ a y, waiting a y s.db.outbox_events <+:
    waiting a y (engine.applyAll s.db ws).outbox_events

/-- A commit that posts no trade. -/
theorem Ordered.commit_nothing {rules : ComplianceRules} {s : LedgerState} {stream : EventStream}
    (h : Ordered rules s stream) {ws : List Write} (ho : ws.filterMap Write.outbox? = [])
    (ht : ∀ t ∈ ws.filterMap Write.trade?, t.status ≠ .posted) : Commits s ws stream := by
  have hrows : (engine.applyAll s.db ws).outbox_events = s.db.outbox_events := by simp [ho]
  refine ⟨hrows ▸ h.nodup, hrows ▸ h.queued, fun a y => ?_, fun a y => hrows ▸ List.prefix_refl _⟩
  refine (h.positioned a y).frame (by rw [ho]; rfl) fun t ht' => ?_
  simp [Trade.isPosted, ht t ht']

/-- A commit that posts a trade in order. -/
theorem Ordered.commit_posted {rules : ComplianceRules} {s : LedgerState} {stream : EventStream}
    (h : Ordered rules s stream) {req : TradeRequestDto} {v : Draws} (rows : PostedRows req v)
    (hq : Numeric.Exact 4 req.quantity) (hacc : rows.trade.account_id.val = req.account_id)
    (hread : v.position = s.db.netPosition rows.trade.account_id.val rows.trade.symbol.val)
    (hfresh : ¬ hasEvent s.db rows.outbox.event_id)
    (hsym : rows.trade.symbol.val = rows.outbox.payload.data.symbol)
    (hlater : ∀ p ∈ s.db.outbox_events, p.sent = false →
      p.payload.concerns rows.outbox.payload.data.account_id rows.outbox.payload.data.symbol →
      p.created_at < rows.outbox.created_at) : Commits s rows.writes stream := by
  obtain ⟨_, ho⟩ := rows.outbox_ok
  have hos : rows.writes.filterMap Write.outbox? = [rows.outbox] := rows.project _ fun _ => rfl
  have hrows : (engine.applyAll s.db rows.writes).outbox_events =
      s.db.outbox_events ++ [rows.outbox] := by simp [hos]
  have hsym' : rows.trade.symbol.val = req.symbol := by rw [hsym, ho.payload]; rfl
  have hjoin := fun a y => (h.queued a y).snoc ho.sent fun hc p hp => by
    obtain ⟨hpair, hun⟩ := List.mem_filter.mp hp
    obtain ⟨hmem, hpc⟩ := List.mem_filter.mp hpair
    refine hlater p hmem (by simpa using hun) ?_
    simp only [LedgerUpdatedEnvelope.concerns, Bool.and_eq_true, decide_eq_true_eq] at hc hpc ⊢
    exact ⟨hpc.1.trans hc.1.symm, hpc.2.trans hc.2.symm⟩
  refine ⟨?_, fun a y => ?_, fun a y => ?_, fun a y => ?_⟩
  · rw [hrows, List.map_append, List.nodup_append]
    refine ⟨h.nodup, List.nodup_singleton _, fun id hid id' hid' heq => hfresh ?_⟩
    rw [List.map_singleton, List.mem_singleton] at hid'
    exact hid' ▸ heq ▸ hid
  · exact hrows ▸ (hjoin a y).1
  · exact rows.positioned (h.positioned a y) hq hacc hsym' (by rw [hread, hacc, hsym'])
  · exact hrows ▸ (hjoin a y).2

theorem Ordered.commit {rules : ComplianceRules} {s : LedgerState} {stream : EventStream}
    (h : Ordered rules s stream) {n : Nat} {c : Call} {es : List LedgerEvent} {r : Reply}
    (get : s.txns[n]? = some ⟨c, es, .ret r, .active⟩) (hg : inOrder s (.commit n)) :
    Commits s (Transactions.writesOf es) stream := by
  have hmem := List.mem_of_getElem? get
  have hf := h.faithful _ hmem
  have hq := h.exact _ hmem
  have hcur := hg.2.1 _ get
  have hord := hg.2.2 _ get
  have hfresh := h.reserved.fresh _ hmem rfl
  simp only [Transactions.Txn.writes] at hfresh
  cases finished hf with
  | duplicate writes => exact h.commit_nothing (by rw [writes]; rfl) (by rw [writes]; simp)
  | rejected violation rows writes =>
    obtain ⟨_, _, _, ht⟩ := rows.trade_ok
    rw [writes]
    exact h.commit_nothing rfl (by simp [ht.status])
  | @posted mdc req _ v trace rows writes read compliant =>
    obtain ⟨_, ht⟩ := rows.trade_ok
    have hposted : rows.trade ∈ postedTrades es := by simp [postedTrades, writes, ht.status]
    have hoes : rows.outbox ∈ rows.writes.filterMap Write.outbox? := by
      rw [rows.project _ fun _ => rfl]
      exact List.mem_singleton.mpr rfl
    obtain ⟨hsym, hlater⟩ := hord _ hposted rows.outbox (by simpa only [writes] using hoes)
    have hread := hcur _ hposted
    simp only [read, Option.some.injEq] at hread
    have hkey : rows.outbox.event_id ∈ rows.writes.filterMap eventKey := by
      rw [rows.project _ fun _ => rfl]
      exact List.mem_singleton.mpr rfl
    rw [writes] at hfresh ⊢
    exact h.commit_posted rows hq (rows.account_id hf trace) hread (hfresh _ hkey) hsym hlater
  | credited trace drawn rows writes =>
    rw [writes]
    exact h.commit_nothing (rows.project _ fun _ => rfl) (by rw [rows.trades]; simp)

/-- The ledger keeps the invariant; no queue loses a row. -/
theorem Ordered.env {rules : ComplianceRules} {s s' : LedgerState} {stream : EventStream}
    (h : Ordered rules s stream) {a : LedgerAct} (hg : inOrder s a)
    (hs : ledgerStep rules a s = some s') : Ordered rules s' stream ∧
      ∀ a y, waiting a y s.db.outbox_events <+: waiting a y s'.db.outbox_events := by
  have hstep := Transactions.step_cases hs
  have hfaithful := Transactions.Faithful.step h.faithful hstep
  have hexact := Transactions.txns_step (Q := fun t => t.call.ExactQuantity)
    (fun c he => (he ▸ hg).1) (fun _ _ _ _ _ _ _ _ _ _ _ h => h) (fun _ _ h => h) h.exact hstep
  have hreserved := events_reserved h.reserved hstep
  cases hstep with
  | begin c =>
    exact ⟨⟨hfaithful, hexact, hreserved, h.nodup, h.queued, h.positioned⟩,
      fun _ _ => List.prefix_refl _⟩
  | stmt get exec free =>
    exact ⟨⟨hfaithful, hexact, hreserved, h.nodup, h.queued, h.positioned⟩,
      fun _ _ => List.prefix_refl _⟩
  | commit get =>
    have hc := h.commit get hg
    exact ⟨⟨hfaithful, hexact, hreserved, hc.nodup, hc.queued, hc.positioned⟩, hc.grows⟩
  | stop get active =>
    exact ⟨⟨hfaithful, hexact, hreserved, h.nodup, h.queued, h.positioned⟩,
      fun _ _ => List.prefix_refl _⟩

/-! ## The relay's steps -/

/-- The batch under way takes each queue from its head. -/
def InFlight (s : LedgerState) (rest : List EventRow) : Prop :=
  ∀ a y, pairRows a y rest <+: waiting a y s.db.outbox_events

theorem InFlight.head {s : LedgerState} {x : EventRow} {rest : List EventRow}
    (h : InFlight s (x :: rest)) {a y : String} (hc : x.payload.concerns a y) :
    (waiting a y s.db.outbox_events).head? = some x := by
  obtain ⟨later, hl⟩ := h a y
  rw [pairRows_cons, if_pos hc] at hl
  rw [← hl]
  rfl

/-- Each row concerns the account and symbol it names. -/
theorem concerns_self (e : LedgerUpdatedEnvelope) :
    e.concerns e.data.account_id e.data.symbol = true := by
  simp [LedgerUpdatedEnvelope.concerns]

theorem InFlight.mem {s : LedgerState} {x : EventRow} {rest : List EventRow}
    (h : InFlight s (x :: rest)) : x ∈ s.db.outbox_events :=
  (waiting_sublist _ _ _).subset (List.mem_of_mem_head? (h.head (concerns_self x.payload)))

/-- The row is the last entry about its account and symbol. -/
def Appended (x : EventRow) (stream : EventStream) : Prop :=
  ∀ a y, x.payload.concerns a y → lastEntry a y stream = some x.payload

theorem Ordered.append {rules : ComplianceRules} {s : LedgerState} {stream : EventStream}
    (h : Ordered rules s stream) {x : EventRow} {rest : List EventRow}
    (hf : InFlight s (x :: rest)) {e : StreamEntry LedgerUpdatedEnvelope}
    (he : e.fields.event = x.payload) :
    Ordered rules s (stream ++ [e]) ∧ Appended x (stream ++ [e]) := by
  refine ⟨⟨h.faithful, h.exact, h.reserved, h.nodup,
    fun a y => (h.queued a y).append hf.head he, h.positioned⟩, fun a y hc => ?_⟩
  rw [lastEntry_snoc, he, if_pos hc]

theorem Positioned.mark {a y : String} {db : Db} (h : Positioned a y db) (id : UUID) :
    Positioned a y { db with outbox_events := markEvent id db.outbox_events } := by
  intro htraded
  obtain ⟨r, hr, hpos⟩ := h htraded
  refine ⟨_, by rw [pairRows_markEvent, markEvent, List.getLast?_map, hr]; rfl, ?_⟩
  refine Eq.trans ?_ hpos
  by_cases hid : r.event_id = id <;> simp [hid]

theorem Ordered.mark {rules : ComplianceRules} {s : LedgerState} {stream : EventStream}
    (h : Ordered rules s stream) {x : EventRow} {rest : List EventRow}
    (hf : InFlight s (x :: rest)) (hx : Appended x stream) :
    Ordered rules (ledgerOutbox.markSent x.event_id s) stream ∧
      InFlight (ledgerOutbox.markSent x.event_id s) rest := by
  have hq := fun a y => (h.queued a y).mark h.nodup hf.mem fun hc => ⟨hf.head hc, hx a y hc⟩
  refine ⟨⟨h.faithful, h.exact, ⟨fun t ht ha id hid hk => ?_, h.reserved.nodup,
    h.reserved.apart⟩, ?_, fun a y => (hq a y).1, fun a y => (h.positioned a y).mark _⟩,
    fun a y => ?_⟩
  · refine h.reserved.fresh t ht ha id hid ?_
    rwa [hasEvent, ← markEvent_ids x.event_id]
  · exact (markEvent_ids x.event_id s.db.outbox_events).symm ▸ h.nodup
  · obtain ⟨later, hl⟩ := hf a y
    refine ⟨later, Eq.trans ?_ (hq a y).2.symm⟩
    rw [← hl, pairRows_cons]
    by_cases hc : x.payload.concerns a y
    · rw [if_pos hc, if_pos hc]
      rfl
    · rw [if_neg hc, if_neg hc]

/-! ## The argument -/

/-- What holds at the points of a batch. -/
def streamPoints (rules : ComplianceRules) : Points LedgerState LedgerUpdatedEnvelope where
  rest w := Ordered rules w.store w.stream
  start w := Ordered rules w.store w.stream
  rows rs w := Ordered rules w.store w.stream ∧ InFlight w.store rs
  mark x rs w := Ordered rules w.store w.stream ∧ InFlight w.store (x :: rs) ∧
    Appended x w.stream

theorem InFlight.env {s s' : LedgerState} {rs : List EventRow} (h : InFlight s rs)
    (hs : ∀ a y, waiting a y s.db.outbox_events <+: waiting a y s'.db.outbox_events) :
    InFlight s' rs :=
  fun a y => (h a y).trans (hs a y)

theorem streamRules (rules : ComplianceRules) :
    RelayRules ledgerOutbox (fun p : LedgerUpdatedEnvelope => some p.schema_version)
      (ledgerStep rules) (besides inOrder) (fun w => Ordered rules w.store w.stream)
      (streamPoints rules) := by
  have stable : ∀ B : LedgerState → EventStream → Prop,
      (∀ s s' st, B s st → (∀ a y, waiting a y s.db.outbox_events <+:
        waiting a y s'.db.outbox_events) → B s' st) →
      Stable (ledgerRelay rules) (besides inOrder) fun w : StreamWorld =>
        Ordered rules w.store w.stream ∧ B w.store w.stream := by
    intro B hB w a w' h hg he
    obtain ⟨s, hs, rfl⟩ := Option.map_eq_some_iff.mp he
    obtain ⟨hord, hgrows⟩ := h.1.env hg hs
    exact ⟨hord, hB _ _ _ h.2 hgrows⟩
  have rest : Stable (ledgerRelay rules) (besides inOrder) fun w : StreamWorld =>
      Ordered rules w.store w.stream := by
    intro w a w' h hg he
    exact (stable (fun _ _ => True) (fun _ _ _ _ _ => trivial) w a w' ⟨h, trivial⟩ hg he).1
  exact {
    rest_stable := rest
    start_stable := rest
    rows_stable := fun rs => stable (fun s _ => InFlight s rs) fun _ _ _ h hs => h.env hs
    mark_stable := fun x rs => stable (fun s st => InFlight s (x :: rs) ∧ Appended x st)
      fun _ _ _ h hs => ⟨h.1.env hs, h.2⟩
    rest_C := fun _ h => h
    rows_C := fun _ _ h => h.1
    mark_C := fun _ _ _ h => h.1
    start_rest := fun _ h => h
    nil_rest := fun _ h => h.1
    select := fun _ _ limit h hord => ⟨h, fun a y => (h.queued a y).select hord limit⟩
    append := fun _ _ _ _ h hf =>
      ⟨(h.1.append h.2 hf).1, h.2, (h.1.append h.2 hf).2⟩
    refuse := fun _ _ _ h => h.1
    appendLost := fun _ _ _ _ h hf => (h.1.append h.2 hf).1
    mark := fun _ _ _ h => h.1.mark h.2.1 h.2.2
    markLate := fun _ _ _ h => (h.1.mark h.2.1 h.2.2).1
    markLost := fun _ _ _ h => h.1
    enter := fun _ _ h => h
    begin := fun _ h => h
    leave := fun _ h => h
    crash := fun _ h _ => h }

/-- No transaction yet, nothing booked and nothing on the stream. -/
def Fresh (w : StreamWorld) : Prop :=
  w.store.txns = [] ∧ NothingBooked w.store.db ∧ w.stream = []

theorem Fresh.ordered {rules : ComplianceRules} {w : StreamWorld} (h : Fresh w) :
    Ordered rules w.store w.stream := by
  obtain ⟨htxns, ⟨htrades, -, -, hout⟩, hstream⟩ := h
  refine ⟨by simp [htxns], by simp [htxns], ⟨by simp [htxns], by simp [htxns], by simp [htxns]⟩,
    by simp [hout], fun a y => ?_, fun a y => ?_⟩
  · rw [hout, hstream]
    exact ⟨rfl, .nil, .inl rfl⟩
  · rintro ⟨t, ht, -⟩
    rw [htrades] at ht
    cases ht

/-- **The stream ends on the net position.** In every run whose trades commit
on current positions and in clock order per account and symbol, once the relay
has nothing left to publish the last event of each pair carries its net
position, whatever the relay's failures and crashes. -/
theorem stream_agrees {rules : ComplianceRules}
    {s : State (RelayCall LedgerUpdatedEnvelope) RelayCall.Result RelayError StreamWorld
      (Option Int)}
    (h : Reach (step (ledgerRelay rules)) (besides inOrder).ok (idle Fresh) s)
    (hd : Drained s.world) : StreamAgrees s.world := by
  have hord : Ordered rules s.world.store s.world.stream :=
    (streamRules rules).proof.always (fun _ h => h) (fun _ h => h)
      (h.mono (fun _ hs => ⟨hs.1.ordered, hs.2⟩) fun _ _ h => h)
  exact .of_queued hord.queued hord.positioned hd

/-! ## Schedules -/

/-- One account, nothing booked, an empty stream. -/
def quiet : StreamWorld where
  store := ⟨oneAccount thousand, []⟩
  stream := []
  appended := none
  hits := []
  log := []
  disabled := false
  streamBefore := []
  sentBefore := []

theorem quiet_fresh : Fresh quiet := ⟨rfl, ⟨rfl, rfl, rfl, rfl⟩, rfl⟩

theorem ledgerUpdated_fits : "LedgerUpdated".length ≤ 64 := by decide

/-- The row of an accepted trade that drew its identifiers from `base` on. -/
def outboxOf (request base : Nat) (clock : OffsetDateTime) (quantity position : BigDecimal) :
    EventRow where
  event_id := uuid (base + 13)
  event_type := ⟨"LedgerUpdated", ledgerUpdated_fits⟩
  payload :=
    { event_id := uuid (base + 14), event_type := "LedgerUpdated", schema_version := "1"
      correlation_id := "c", produced_at := clock, producer := "ledger-core"
      data :=
        { journal_entry_id := uuid (base + 5), source_event_id := uuid request
          account_id := "A", symbol := "X", side := "BUY", quantity, price := 1
          cash_delta := -quantity, position_after := position, posted_at := clock } }
  sent := false
  created_at := clock

abbrev StreamAct := Act RelayEntry (RelayChoice LedgerUpdatedEnvelope) LedgerAct

/-- One relay call over the given unsent rows. -/
def drain (rows : List EventRow) : List StreamAct :=
  [.enter (.relayBatch ⟨true, 10⟩), .call (.rows rows)] ++
    (List.replicate (2 * rows.length) (.call .done)) ++ [.leave]

/-- Two trades one after the other, then the relay. -/
def twoInOrder : List StreamAct :=
  [.env (.begin (buy 1 60 1))] ++ (stmts 0 16 100 1).map .env ++
  [.env (.commit 0), .env (.begin (buy 2 30 1))] ++ (stmts 1 16 200 2).map .env ++
  [.env (.commit 1)] ++ drain [outboxOf 1 100 1 60 60, outboxOf 2 200 2 30 90]

instance (s : State (RelayCall LedgerUpdatedEnvelope) RelayCall.Result RelayError StreamWorld
    (Option Int)) (a : StreamAct) : Decidable ((besides inOrder).ok s a) := by
  have (e : LedgerAct) (w : StreamWorld) : Decidable ((besides inOrder).env e w) :=
    inferInstanceAs (Decidable (inOrder w.store e))
  unfold Guard.ok
  split <;> first | infer_instance | exact .isTrue trivial

instance (s : State (RelayCall LedgerUpdatedEnvelope) RelayCall.Result RelayError StreamWorld
    (Option Int)) (a : StreamAct) : Decidable (undisturbed.ok s a) := by
  have (e : LedgerAct) (w : StreamWorld) : Decidable (undisturbed.env e w) :=
    inferInstanceAs (Decidable (exactQuantities w.store e))
  have (i : RelayCall LedgerUpdatedEnvelope) (o : RelayChoice LedgerUpdatedEnvelope)
      (w : StreamWorld) : Decidable (undisturbed.call i o w) := by
    cases o <;> first | exact .isTrue trivial | exact .isFalse id
  unfold Guard.ok
  split <;> first | infer_instance | exact .isTrue trivial | exact .isFalse id

theorem stream_agrees_twoInOrder : ∃ w : StreamWorld, w.stream.length = 2 ∧ Drained w ∧
    StreamAgrees w := by
  obtain ⟨s, hs, hp⟩ := Reach.exists_of_run (step (ledgerRelay ⟨100⟩))
    (besides inOrder).ok (idle Fresh) twoInOrder
    (fun s => s.world.stream.length = 2 ∧ ∀ r ∈ s.world.store.db.outbox_events, r.sent = true)
    (s := ⟨quiet, none⟩) ⟨quiet_fresh, rfl⟩ (by decide +kernel)
  obtain ⟨hlen, hd⟩ := of_decide_eq_true hp
  exact ⟨s.world, hlen, hd, stream_agrees hs hd⟩

/-- Two trades that both read the position before either commits, then the relay. -/
def twoAtOnce : List StreamAct :=
  twoBuys.map .env ++ drain [outboxOf 1 100 0 60 60, outboxOf 2 200 0 60 60]

/-- Under READ COMMITTED the last event can carry a position that is not the
net position, with every transaction over and nothing left to publish. -/
theorem stream_can_disagree :
    ∃ s, Reach (step (ledgerRelay ⟨100⟩)) undisturbed.ok (idle Fresh) s ∧
      Drained s.world ∧ (∀ t ∈ s.world.store.txns, t.status = .committed) ∧
      ¬ StreamAgrees s.world := by
  obtain ⟨s, hs, hp⟩ := Reach.exists_of_run (step (ledgerRelay ⟨100⟩))
    undisturbed.ok (idle Fresh) twoAtOnce
    (fun s => (∀ r ∈ s.world.store.db.outbox_events, r.sent = true) ∧
      (∀ t ∈ s.world.store.txns, t.status = .committed) ∧
      (∃ t ∈ s.world.store.db.trades, t.isPosted "A" "X") ∧
      (lastEntry "A" "X" s.world.stream).map (·.data.position_after) = some 60 ∧
      s.world.store.db.netPosition "A" "X" = 120)
    (s := ⟨quiet, none⟩) ⟨quiet_fresh, rfl⟩ (by decide +kernel)
  obtain ⟨hd, hover, htraded, hlast, hnet⟩ := of_decide_eq_true hp
  refine ⟨s, hs, hd, hover, fun h => ?_⟩
  obtain ⟨e, he, hpos⟩ := h "A" "X" htraded
  rw [he, Option.map_some, hpos, hnet] at hlast
  exact absurd hlast (by decide +kernel)

end TradePulse.Ledger
