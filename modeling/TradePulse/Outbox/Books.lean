import TradePulse.Core.Firsts
import TradePulse.Outbox.System
import Mathlib.Algebra.Order.BigOperators.Group.List
import Mathlib.Tactic.Linarith

/-! # The books of the SQLite ledger

Every trade is one journal entry with two mirrored lines, one accepted audit
row and one event in the outbox; cash and positions are what the events add up
to. A crash leaves all of a trade or nothing of it. -/
namespace TradePulse.Outbox
open TradePulse.Core TradePulse.Core.Runs
open Outbox.Ledger (fetch)

/-- The key of a position. -/
def LedgerData.key (d : LedgerData) : String × String := (d.account_id, d.symbol)

def LedgerData.signedQty (d : LedgerData) : ℚ := if d.side = "BUY" then d.quantity else -d.quantity

def LedgerData.signedAmount (d : LedgerData) : ℚ :=
  if d.side = "BUY" then -d.quantity * d.price else d.quantity * d.price

/-- What some trades leave of a position. -/
def holding (events : List LedgerData) (key : String × String) : ℚ :=
  ((events.filter (·.key = key)).map LedgerData.signedQty).sum

namespace Db

def events (db : Db) : List LedgerData := db.outbox_events.map (·.payload.data)

structure Books (db : Db) : Prop where
  entries : db.events.map (fun d => (d.journal_entry_id, d.source_event_id)) =
    db.journal_entries.map fun e => (e.je_id, e.source_event_id)
  audited : (db.audit_log.filter (·.outcome = "accepted")).map (·.source_event_id) =
    db.journal_entries.map (·.source_event_id)
  once : (db.journal_entries.map (·.source_event_id)).Nodup
  je_ids : (db.journal_entries.map (·.je_id)).Nodup
  payloads : ∀ r ∈ db.outbox_events, r.payload.event_id = r.event_id
  event_ids : (db.outbox_events.map (·.event_id)).Nodup
  lines : db.journal_lines = db.events.flatMap fun d =>
    Ledger.linesOf d.journal_entry_id d.account_id d.side |d.cash_delta|
  amounts : ∀ d ∈ db.events, d.account_id = "acct_123" ∧ d.cash_delta = d.signedAmount
  cash : db.accounts = [("acct_123", 10000 + (db.events.map (·.cash_delta)).sum)]
  solvent : 0 ≤ 10000 + (db.events.map (·.cash_delta)).sum
  running : ∀ before d later, db.events = before ++ d :: later →
    d.position_after = holding (before ++ [d]) d.key
  positions : ∀ key, fetch key db.positions =
    if key ∈ db.events.map LedgerData.key then some (holding db.events key) else none

end Db

theorem holding_snoc (events : List LedgerData) (d : LedgerData) (key : String × String) :
    holding (events ++ [d]) key =
      if d.key = key then holding events key + d.signedQty else holding events key := by
  rw [holding, List.filter_append, List.map_append, List.sum_append, ← holding]
  by_cases h : d.key = key <;> simp [h]

theorem holding_eq_zero {events : List LedgerData} {key : String × String}
    (h : key ∉ events.map LedgerData.key) : holding events key = 0 := by
  have hnil : events.filter (·.key = key) = [] := List.filter_eq_nil_iff.mpr fun d hd hkey =>
    h (of_decide_eq_true hkey ▸ List.mem_map_of_mem hd)
  rw [holding, hnil]
  rfl

/-- The last event of a position says what the position is. -/
theorem lastOf_position_after {events : List LedgerData}
    (h : ∀ before d later, events = before ++ d :: later →
      d.position_after = holding (before ++ [d]) d.key) (key : String × String) :
    lastOf (events.map fun d => (d.key, d.position_after)) key =
      if key ∈ events.map LedgerData.key then some (holding events key) else none := by
  induction events using List.reverseRecOn with
  | nil => rfl
  | append_singleton events d ih =>
    have hbefore := ih fun before e later heq => h before e (later ++ [d]) (by rw [heq]; simp)
    rw [List.map_append, List.map_singleton, lastOf_snoc, hbefore, holding_snoc, h events d [] rfl,
      holding_snoc]
    by_cases hkey : d.key = key
    · simp [hkey]
    · simp [hkey, Ne.symm hkey]

namespace Db.Books

variable {db : Db}

theorem length_events (h : db.Books) : db.events.length = db.journal_entries.length := by
  have hlen := congrArg List.length h.entries
  rwa [List.length_map, List.length_map] at hlen

/-- **Double entry.** -/
theorem balanced (h : db.Books) (l : Ledger) (hl : l.db = db) :
    l.debits_credits.1 = l.debits_credits.2 := by
  change (l.db.journal_lines.map (·.debit)).sum = (l.db.journal_lines.map (·.credit)).sum
  rw [hl, h.lines]
  induction db.events with
  | nil => rfl
  | cons d events ih =>
    rw [List.flatMap_cons, List.map_append, List.map_append, List.sum_append, List.sum_append, ih]
    refine congrArg (· + _) ?_
    rw [Ledger.linesOf]
    split <;> simp

theorem new : Db.Books Ledger.new.db where
  entries := rfl
  audited := rfl
  once := List.nodup_nil
  je_ids := List.nodup_nil
  payloads := fun _ hr => absurd hr List.not_mem_nil
  event_ids := List.nodup_nil
  lines := rfl
  amounts := fun _ hd => absurd hd List.not_mem_nil
  cash := by simp [Ledger.new, Db.events]
  solvent := by simp [Ledger.new, Db.events]
  running := fun before d later heq => by
    have hlen := congrArg List.length heq
    simp [Ledger.new, Db.events] at hlen
  positions := fun _ => rfl

theorem withRejection (h : db.Books) (req : Req) (d : Draws) :
    (Ledger.withRejection db req d).Books :=
  { h with
    audited := by
      rw [Ledger.withRejection, List.filter_append]
      simpa using h.audited }

theorem withTrade (h : db.Books) {req : Req} {d : Draws} (hfresh : Ledger.Fresh db d)
    (hnew : req.request_id ∉ db.journal_entries.map (·.source_event_id)) {cash : ℚ}
    (hcash : fetch req.account_id db.accounts = some cash)
    (hsolvent : 0 ≤ cash + Ledger.cashDelta req) : (Ledger.withTrade db req d).Books := by
  have hevents : (Ledger.withTrade db req d).events =
      db.events ++ [(Ledger.eventOf db req d).data] := List.map_append
  have haccount : req.account_id = "acct_123" ∧
      10000 + (db.events.map (·.cash_delta)).sum = cash := by
    rw [h.cash, fetch, List.find?_singleton] at hcash
    split at hcash
    · rename_i hacc
      exact ⟨(of_decide_eq_true hacc).symm, Option.some.inj hcash⟩
    · cases hcash
  have hqty : (Ledger.eventOf db req d).data.signedQty = Ledger.qtyDelta req := rfl
  have hafter : (Ledger.eventOf db req d).data.position_after =
      holding (db.events ++ [(Ledger.eventOf db req d).data])
        (Ledger.eventOf db req d).data.key := by
    rw [holding_snoc, if_pos rfl, hqty]
    change (fetch (req.account_id, req.symbol) db.positions).getD 0 + Ledger.qtyDelta req =
      holding db.events (req.account_id, req.symbol) + Ledger.qtyDelta req
    rw [h.positions]
    split
    · rfl
    · rename_i hmem
      rw [holding_eq_zero hmem]
      rfl
  refine ⟨?_, ?_, ?_, ?_, ?_, ?_, ?_, ?_, ?_, ?_, ?_, ?_⟩
  · rw [hevents, List.map_append, h.entries, Ledger.withTrade, List.map_append]
    rfl
  · change ((db.audit_log ++ [_]).filter _).map _ = (db.journal_entries ++ [_]).map _
    rw [List.filter_append, List.map_append, h.audited, List.map_append]
    rfl
  · exact nodup_map_snoc h.once hnew
  · exact nodup_map_snoc h.je_ids hfresh.je_id
  · intro r hr
    rcases List.mem_append.mp hr with hr | hr
    · exact h.payloads r hr
    · rw [List.mem_singleton.mp hr]
      rfl
  · exact nodup_map_snoc h.event_ids hfresh.event_id
  · rw [hevents, List.flatMap_append, ← h.lines, List.flatMap_singleton]
    rfl
  · rw [hevents]
    intro x hx
    rcases List.mem_append.mp hx with hx | hx
    · exact h.amounts x hx
    · rw [List.mem_singleton.mp hx]
      exact ⟨haccount.1, rfl⟩
  · change Ledger.addCash req.account_id (Ledger.cashDelta req) db.accounts = _
    rw [h.cash, hevents, List.map_append, List.sum_append, ← add_assoc]
    simp only [Ledger.addCash, List.map_cons, List.map_nil, if_pos haccount.1.symm,
      List.sum_singleton]
    rfl
  · rw [hevents, List.map_append, List.sum_append, ← add_assoc, haccount.2, List.map_singleton,
      List.sum_singleton]
    exact hsolvent
  · intro before x later heq
    rw [hevents] at heq
    rcases List.eq_nil_or_concat later with rfl | ⟨later, y, rfl⟩
    · obtain ⟨rfl, hx⟩ := List.append_inj' heq rfl
      cases hx
      exact hafter
    · rw [List.concat_eq_append, ← List.cons_append, ← List.append_assoc] at heq
      exact h.running before x later (List.append_inj' heq rfl).1
  · intro key
    change fetch key (Ledger.addQty (req.account_id, req.symbol) (Ledger.qtyDelta req)
      db.positions) = _
    have hmem : key ∈ (db.events ++ [(Ledger.eventOf db req d).data]).map LedgerData.key ↔
        key ∈ db.events.map LedgerData.key ∨ key = (req.account_id, req.symbol) := by
      rw [List.map_append, List.mem_append, List.map_singleton, List.mem_singleton]
      rfl
    rw [Ledger.fetch_addQty, hevents]
    simp only [hmem]
    by_cases hkey : key = (req.account_id, req.symbol)
    · subst hkey
      rw [if_pos rfl, if_pos (.inr rfl)]
      exact congrArg some hafter
    · rw [if_neg hkey, h.positions, holding_snoc,
        if_neg (show (Ledger.eventOf db req d).data.key ≠ key from Ne.symm hkey)]
      simp only [or_iff_left hkey]

theorem markSent (h : db.Books) (event_id : String) :
    ({ db with outbox_events := Ledger.markSent event_id db.outbox_events } : Db).Books := by
  have hevents : ({ db with outbox_events := Ledger.markSent event_id db.outbox_events } : Db).events =
      db.events := by
    rw [Db.events, Ledger.markSent, List.map_map]
    refine List.map_congr_left fun r _ => ?_
    rw [Function.comp_apply]
    split <;> rfl
  have hids : (Ledger.markSent event_id db.outbox_events).map (·.event_id) =
      db.outbox_events.map (·.event_id) := map_key_update (show ∀ r : OutboxRow,
        r.event_id = event_id → ({ r with sent := true } : OutboxRow).event_id = event_id from
        fun _ h => h) _
  refine ⟨hevents ▸ h.entries, h.audited, h.once, h.je_ids, ?_, hids ▸ h.event_ids,
    hevents ▸ h.lines, hevents ▸ h.amounts, hevents ▸ h.cash, hevents ▸ h.solvent,
    hevents ▸ h.running, hevents ▸ h.positions⟩
  intro r hr
  obtain ⟨r', hr', rfl⟩ := List.mem_map.mp hr
  split
  · exact h.payloads r' hr'
  · exact h.payloads r' hr'

end Db.Books

/-! ## Every run -/

/-- Nothing is left to commit, and the books are in order. -/
def Ledger.Sound (l : Ledger) : Prop := l.committed = l.db ∧ l.db.Books

theorem Ledger.Sound.post_trade {l : Ledger} (h : l.Sound) {req : Req} {d : Draws}
    (hfresh : Ledger.Fresh l.db d) (crash_point : Option CrashPoint) :
    (Ledger.exec (Ledger.post_trade req crash_point d) l).2.Sound := by
  obtain ⟨db, committed⟩ := l
  obtain ⟨hcommitted, hbooks⟩ := h
  cases (show committed = db from hcommitted)
  have houtcome : Ledger.Outcome db req crash_point d _ :=
    Ledger.post_trade_outcome hfresh crash_point
  generalize Ledger.exec (Ledger.post_trade req crash_point d) ⟨db, db⟩ = r at houtcome ⊢
  cases houtcome with
  | replay row hmem hreq => exact ⟨rfl, hbooks⟩
  | unknown hnone => exact ⟨rfl, hbooks⟩
  | rejected cash hcash hneg => exact ⟨rfl, hbooks.withRejection req d⟩
  | undone hcrash => exact ⟨rfl, hbooks⟩
  | posted cash hnew hcash hsolvent hcrash =>
    exact ⟨rfl, hbooks.withTrade hfresh hnew hcash hsolvent⟩

theorem Ledger.Sound.mark_sent {l : Ledger} (h : l.Sound) (event_id : String) :
    (Ledger.exec (Ledger.mark_sent event_id) l).2.Sound :=
  ⟨rfl, h.2.markSent event_id⟩

theorem Ledger.Sound.relayTo {α : Type} {loads : Envelope LedgerData → α} {l : Ledger}
    (h : l.Sound) (stream : String) (inject_dup : Bool) (n : Nat) (b : StreamBus α) :
    (Outbox.relayTo loads stream inject_dup n l b).1.Sound := by
  rw [Outbox.relayTo]
  generalize (l.unsent_outbox.flatMap (rowEffects inject_dup)).take n = effects
  induction effects generalizing l b with
  | nil => exact h
  | cons e effects ih =>
    cases e with
    | xadd payload => exact ih h _
    | mark_sent event_id => exact ih (h.mark_sent event_id) _

theorem Ledger.Sound.step {w w' : World} (h : w.ledger.Sound) {a : Act}
    (hfresh : Outbox.Fresh w a) (hstep : Outbox.step a w = some w') : w'.ledger.Sound := by
  cases a with
  | post_trade req crash_point d =>
    cases hstep
    exact h.post_trade hfresh crash_point
  | relay_outbox inject_dup effects =>
    cases hstep
    exact h.relayTo STREAM inject_dup effects w.bus
  | consume =>
    cases hstep
    exact h
  | poll crash_before_ack =>
    obtain ⟨c, -, r, -, rfl⟩ := step_poll hstep
    exact h
  | recover =>
    obtain ⟨c, -, s, -, rfl⟩ := step_recover hstep
    exact h
  | setid start =>
    cases hstep
    exact h

theorem sound_of_reach {w : World} (h : Reach step Fresh World.start w) : w.ledger.Sound := by
  refine h.invariant (I := fun w => w.ledger.Sound) ?_ fun _ _ _ hw hfresh hstep =>
    hw.step hfresh hstep
  rintro w rfl
  exact ⟨rfl, Db.Books.new⟩

/-- **The books are in order in every run.** -/
theorem books_of_reach {w : World} (h : Reach step Fresh World.start w) :
    w.ledger.committed = w.ledger.db ∧ w.ledger.db.Books ∧
      w.ledger.debits_credits.1 = w.ledger.debits_credits.2 ∧
      w.ledger.cash "acct_123" = some (10000 + (w.ledger.db.events.map (·.cash_delta)).sum) ∧
      ∀ account symbol, w.ledger.position account symbol =
        holding w.ledger.db.events (account, symbol) := by
  obtain ⟨hcommitted, hbooks⟩ := sound_of_reach h
  refine ⟨hcommitted, hbooks, hbooks.balanced w.ledger rfl, ?_, fun account symbol => ?_⟩
  · rw [Ledger.cash, hbooks.cash]
    rfl
  · rw [Ledger.position, hbooks.positions]
    split
    · rfl
    · rename_i hkey
      exact (holding_eq_zero hkey).symm

theorem books_of_scenario : ∃ w : World, 0 < w.ledger.je_count ∧
    w.ledger.debits_credits.1 = w.ledger.debits_credits.2 := by
  obtain ⟨w, hreach, hw⟩ := Reach.exists_of_run step Fresh World.start scenario
    (fun w : World => decide (0 < w.ledger.je_count)) (s := ⟨.new, .new, none⟩) rfl (by decide +kernel)
  exact ⟨w, of_decide_eq_true hw, (books_of_reach hreach).2.2.1⟩

/-! ## Retries -/

theorem mem_entries_post_trade {l : Ledger} (hl : l.Sound) {row : JournalEntry}
    (hrow : row ∈ l.db.journal_entries) {req : Req} {d : Draws} (hfresh : Ledger.Fresh l.db d)
    (crash_point : Option CrashPoint) : row ∈
      (Ledger.exec (Ledger.post_trade req crash_point d) l).2.db.journal_entries := by
  obtain ⟨db, committed⟩ := l
  cases (show committed = db from hl.1)
  have houtcome : Ledger.Outcome db req crash_point d _ :=
    Ledger.post_trade_outcome hfresh crash_point
  generalize Ledger.exec (Ledger.post_trade req crash_point d) ⟨db, db⟩ = r at houtcome ⊢
  cases houtcome with
  | replay | unknown | rejected | undone => exact hrow
  | posted => exact List.mem_append_left _ hrow

theorem entries_relayTo {α : Type} (loads : Envelope LedgerData → α) (stream : String)
    (inject_dup : Bool) (n : Nat) (l : Ledger) (b : StreamBus α) :
    (relayTo loads stream inject_dup n l b).1.db.journal_entries = l.db.journal_entries := by
  rw [relayTo]
  generalize (l.unsent_outbox.flatMap (rowEffects inject_dup)).take n = effects
  induction effects generalizing l b with
  | nil => rfl
  | cons e effects ih =>
    cases e with
    | xadd payload => exact ih l _
    | mark_sent event_id => exact ih (Ledger.exec (Ledger.mark_sent event_id) l).2 b

/-- A journal entry stays. -/
theorem entries_grow {w w' : World} (hw : w.ledger.Sound) {row : JournalEntry}
    (hrow : row ∈ w.ledger.db.journal_entries) {a : Act} (hfresh : Fresh w a)
    (hstep : step a w = some w') : row ∈ w'.ledger.db.journal_entries := by
  cases a with
  | post_trade req crash_point d =>
    cases hstep
    exact mem_entries_post_trade hw hrow hfresh crash_point
  | relay_outbox inject_dup effects =>
    cases hstep
    exact (entries_relayTo id STREAM inject_dup effects w.ledger w.bus).symm ▸ hrow
  | consume =>
    cases hstep
    exact hrow
  | poll crash_before_ack =>
    obtain ⟨c, -, r, -, rfl⟩ := step_poll hstep
    exact hrow
  | recover =>
    obtain ⟨c, -, s, -, rfl⟩ := step_recover hstep
    exact hrow
  | setid start =>
    cases hstep
    exact hrow

theorem mem_entries_of_reach {w w' : World} {row : JournalEntry}
    (h : Reach step Fresh World.start w) (hrow : row ∈ w.ledger.committed.journal_entries)
    (h' : Reach step Fresh (· = w) w') :
    w'.ledger.Sound ∧ row ∈ w'.ledger.db.journal_entries := by
  refine h'.invariant (I := fun w' => w'.ledger.Sound ∧ row ∈ w'.ledger.db.journal_entries) ?_ ?_
  · rintro w' rfl
    have hw := sound_of_reach h
    exact ⟨hw, hw.1 ▸ hrow⟩
  · rintro w₁ a w₂ ⟨hsound, hmem⟩ hfresh hstep
    exact ⟨hsound.step hfresh hstep, entries_grow hsound hmem hfresh hstep⟩

/-- **A trade is posted once.** Once a trade is committed, whether or not its
caller has heard of it, every later request under its id is answered with its
journal entry and changes nothing, whatever else it asks for. -/
theorem retry_replays {w w' : World} {row : JournalEntry} (h : Reach step Fresh World.start w)
    (hrow : row ∈ w.ledger.committed.journal_entries) (h' : Reach step Fresh (· = w) w')
    {req : Req} (hreq : req.request_id = row.source_event_id) (crash_point : Option CrashPoint)
    (d : Draws) : Ledger.exec (Ledger.post_trade req crash_point d) w'.ledger =
      (.ok (.replay row.je_id), w'.ledger) := by
  obtain ⟨⟨hcommitted, hbooks⟩, hmem⟩ := mem_entries_of_reach h hrow h'
  have hfind : w'.ledger.db.journal_entries.find?
      (fun r => decide (r.source_event_id = req.request_id)) = some row := by
    have hsome : (w'.ledger.db.journal_entries.find?
        fun r => decide (r.source_event_id = req.request_id)).isSome = true :=
      List.find?_isSome.mpr ⟨row, hmem, decide_eq_true hreq.symm⟩
    obtain ⟨r, hr⟩ := Option.isSome_iff_exists.mp hsome
    have hid : r.source_event_id = row.source_event_id :=
      (by simpa using List.find?_some hr : r.source_event_id = req.request_id).trans hreq
    rw [hr, List.inj_on_of_nodup_map hbooks.once (List.mem_of_find?_eq_some hr) hmem hid]
  rw [Ledger.post_trade, Ledger.exec_select_bind, hfind]
  rfl

theorem retry_replays_after_crash : ∃ w : World, ∃ row ∈ w.ledger.db.journal_entries,
    Ledger.exec (Ledger.post_trade (buy row.source_event_id) none (draws "9")) w.ledger =
      (.ok (.replay row.je_id), w.ledger) := by
  obtain ⟨w, hreach, hw⟩ := Reach.exists_of_run step Fresh World.start
    [.post_trade (buy "r1") (some .after_commit_before_publish) (draws "1")]
    (fun w : World => (w.ledger.committed.journal_entries.head?).isSome &&
      (run step Fresh [.relay_outbox true 2, .post_trade (buy "r2") none (draws "2")] w).isSome)
    (s := ⟨.new, .new, none⟩) rfl (by decide +kernel)
  obtain ⟨hhead, hrun⟩ := Bool.and_eq_true_iff.mp hw
  obtain ⟨row, hrow⟩ := Option.isSome_iff_exists.mp hhead
  obtain ⟨w', hrun⟩ := Option.isSome_iff_exists.mp hrun
  have hmem := List.mem_of_head? hrow
  have hlater : Reach step Fresh (· = w) w' := Reach.run _ (.init rfl) hrun
  obtain ⟨hsound, hmem'⟩ := mem_entries_of_reach hreach hmem hlater
  exact ⟨w', row, hmem', retry_replays hreach hmem hlater rfl none (draws "9")⟩

end TradePulse.Outbox
