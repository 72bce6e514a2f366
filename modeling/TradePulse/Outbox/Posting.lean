import TradePulse.Outbox.Ledger

/-! # What a call of `post_trade` can come to

Either nothing changes, or a rejection is audited, or all writes of a trade are
committed together. -/
namespace TradePulse.Outbox
open TradePulse.Core

namespace Ledger

section Runs

variable {α β : Type} {l l' : Ledger}

/-- A call, from one state of the connection to the next. -/
def exec (m : Sql α) (l : Ledger) : Except Failure α × Ledger := m.run.run l

theorem exec_bind {m : Sql α} {f : α → Sql β} {a : α} (h : exec m l = (.ok a, l')) :
    exec (m >>= f) l = exec (f a) l' := by
  rw [exec] at h
  rw [exec, ExceptT.run_bind, StateT.run_bind, h]
  rfl

theorem exec_bind_error {m : Sql α} {f : α → Sql β} {e : Failure}
    (h : exec m l = (.error e, l')) : exec (m >>= f) l = (.error e, l') := by
  rw [exec] at h
  rw [exec, ExceptT.run_bind, StateT.run_bind, h]
  rfl

theorem exec_tryCatch {m : Sql α} {f : Failure → Sql α} {a : α} (h : exec m l = (.ok a, l')) :
    exec (tryCatch m f) l = (.ok a, l') := by
  rw [exec] at h
  rw [exec, ExceptT.run_tryCatch, StateT.run_bind, h]
  rfl

theorem exec_tryCatch_error {m : Sql α} {f : Failure → Sql α} {e : Failure}
    (h : exec m l = (.error e, l')) : exec (tryCatch m f) l = exec (f e) l' := by
  rw [exec] at h
  rw [exec, ExceptT.run_tryCatch, StateT.run_bind, h]
  rfl

theorem exec_select_bind (read : Db → α) (f : α → Sql β) (l : Ledger) :
    exec (select read >>= f) l = exec (f (read l.db)) l := rfl

theorem exec_update (write : Db → Db) (l : Ledger) :
    exec (update write) l = (.ok (), { l with db := write l.db }) := rfl

end Runs

/-! ## Statements -/

section Statements

variable {l : Ledger}

theorem exec_insertAudit {row : AuditRow}
    (h : row.audit_id ∉ l.db.audit_log.map (·.audit_id)) :
    exec (insertAudit row) l =
      (.ok (), { l with db := { l.db with audit_log := l.db.audit_log ++ [row] } }) := by
  rw [insertAudit, exec_select_bind, if_neg h]
  rfl

theorem exec_insertEntry {row : JournalEntry}
    (hje : row.je_id ∉ l.db.journal_entries.map (·.je_id))
    (hsource : row.source_event_id ∉ l.db.journal_entries.map (·.source_event_id)) :
    exec (insertEntry row) l =
      (.ok (), { l with db := { l.db with
        journal_entries := l.db.journal_entries ++ [row] } }) := by
  rw [insertEntry, exec_select_bind, if_neg (not_or.mpr ⟨hje, hsource⟩)]
  rfl

theorem exec_insertOutbox {row : OutboxRow}
    (h : row.event_id ∉ l.db.outbox_events.map (·.event_id)) :
    exec (insertOutbox row) l =
      (.ok (), { l with db := { l.db with outbox_events := l.db.outbox_events ++ [row] } }) := by
  rw [insertOutbox, exec_select_bind, if_neg h]
  rfl

theorem exec_insertLines (rows : List JournalLine) (l : Ledger) :
    exec (rows.forM insertLine) l =
      (.ok (), { l with db := { l.db with journal_lines := l.db.journal_lines ++ rows } }) := by
  induction rows generalizing l with
  | nil =>
    rw [List.append_nil]
    rfl
  | cons row rows ih =>
    have hcons : (row :: rows).forM insertLine = (insertLine row >>= fun _ => rows.forM insertLine) :=
      rfl
    have hinsert : exec (insertLine row) l = (.ok (), { l with db := { l.db with
        journal_lines := l.db.journal_lines ++ [row] } }) := rfl
    rw [hcons, exec_bind hinsert, ih]
    simp only [List.append_assoc, List.singleton_append]

theorem exec_fetchOne_bind {κ β : Type} [DecidableEq κ] {key : κ} {read : Db → List (κ × ℚ)}
    {f : ℚ → Sql β} : exec (fetchOne key read >>= f) l = match fetch key (read l.db) with
      | some x => exec (f x) l
      | none => (.error .TypeError, l) := by
  have hfetch : exec (fetchOne key read) l = match fetch key (read l.db) with
      | some x => (.ok x, l)
      | none => (.error .TypeError, l) := by
    rw [fetchOne, exec_select_bind]
    cases fetch key (read l.db) <;> rfl
  cases hx : fetch key (read l.db) with
  | some x => exact exec_bind (hfetch.trans (by rw [hx]))
  | none => exact exec_bind_error (hfetch.trans (by rw [hx]))

end Statements

/-! ## Rows with an amount -/

section Amounts

variable {κ : Type} [DecidableEq κ]

theorem fetch_addQty (key key' : String × String) (qd : ℚ)
    (rows : List ((String × String) × ℚ)) :
    fetch key' (addQty key qd rows) =
      if key' = key then some ((fetch key rows).getD 0 + qd) else fetch key' rows := by
  rw [addQty]
  split
  · rename_i hany
    have hkey : ∀ row : (String × String) × ℚ, row.1 = key → (row.1, row.2 + qd).1 = key :=
      fun _ h => h
    rw [fetch, find?_key_update hkey]
    split
    · obtain ⟨row, hrow⟩ := Option.isSome_iff_exists.mp (List.find?_isSome.mpr
        (List.any_eq_true.mp hany))
      rw [fetch, hrow]
      rfl
    · rfl
  · rename_i hany
    have hnew : ∀ row ∈ rows, row.1 ≠ key := fun row hrow hkey =>
      hany (List.any_eq_true.mpr ⟨row, hrow, decide_eq_true hkey⟩)
    rw [fetch, find?_insert hnew]
    split
    · have hnone : rows.find? (fun row => decide (row.1 = key)) = none :=
        List.find?_eq_none.mpr fun row hrow => by simpa using hnew row hrow
      simp [fetch, hnone]
    · rfl

end Amounts

/-! ## A trade -/

/-- The identifiers drawn in a call are new. -/
structure Fresh (db : Db) (d : Draws) : Prop where
  audit_id : d.audit_id ∉ db.audit_log.map (·.audit_id)
  je_id : d.je_id ∉ db.journal_entries.map (·.je_id)
  event_id : d.event_id ∉ db.outbox_events.map (·.event_id)

/-- The position of the account, once a trade is in it. -/
def positionAfter (db : Db) (req : Req) : ℚ :=
  (fetch (req.account_id, req.symbol) db.positions).getD 0 + qtyDelta req

/-- The event of a trade. -/
def eventOf (db : Db) (req : Req) (d : Draws) : Envelope LedgerData :=
  envelopeOf req (cashDelta req) (positionAfter db req) d

/-- The tables with a trade in them. -/
def withTrade (db : Db) (req : Req) (d : Draws) : Db where
  accounts := addCash req.account_id (cashDelta req) db.accounts
  journal_entries := db.journal_entries ++ [⟨d.je_id, req.request_id, d.posted_at⟩]
  journal_lines := db.journal_lines ++
    linesOf d.je_id req.account_id req.side |cashDelta req|
  positions := addQty (req.account_id, req.symbol) (qtyDelta req) db.positions
  audit_log := db.audit_log ++ [⟨d.audit_id, req.request_id, "accepted", none, d.recorded_at⟩]
  outbox_events := db.outbox_events ++
    [⟨d.event_id, "LedgerUpdated", eventOf db req d, false, d.created_at⟩]

def withRejection (db : Db) (req : Req) (d : Draws) : Db :=
  { db with audit_log := db.audit_log ++
      [⟨d.audit_id, req.request_id, "rejected", some "NEGATIVE_CASH", d.recorded_at⟩] }

/-- What a call comes to, from a connection with nothing left to commit. -/
inductive Outcome (db : Db) (req : Req) (crash_point : Option CrashPoint) (d : Draws) :
    Except Failure Reply × Ledger → Prop
  | replay (row : JournalEntry) : row ∈ db.journal_entries →
      row.source_event_id = req.request_id →
      Outcome db req crash_point d (.ok (.replay row.je_id), ⟨db, db⟩)
  | unknown : fetch req.account_id db.accounts = none →
      Outcome db req crash_point d (.error .TypeError, ⟨db, db⟩)
  | rejected (cash : ℚ) : fetch req.account_id db.accounts = some cash →
      cash + cashDelta req < 0 →
      Outcome db req crash_point d
        (.ok .rejected, ⟨withRejection db req d, withRejection db req d⟩)
  | undone : crash_point = some .before_commit →
      Outcome db req crash_point d (.error .CrashInjected, ⟨db, db⟩)
  | posted (cash : ℚ) : req.request_id ∉ db.journal_entries.map (·.source_event_id) →
      fetch req.account_id db.accounts = some cash → 0 ≤ cash + cashDelta req →
      crash_point ≠ some .before_commit →
      Outcome db req crash_point d
        (if crash_point = some .after_commit_before_publish then .error .CrashInjected
          else .ok (.posted d.je_id d.event_id), ⟨withTrade db req d, withTrade db req d⟩)

theorem exec_writeTrade {l : Ledger} {req : Req} {d : Draws} (h : Fresh l.db d)
    (hnew : req.request_id ∉ l.db.journal_entries.map (·.source_event_id)) :
    exec (writeTrade req (cashDelta req) d) l =
      (.ok (), { l with db := withTrade l.db req d }) := by
  rw [writeTrade, exec_bind (exec_insertEntry h.je_id hnew), exec_bind (exec_insertLines ..),
    exec_bind (exec_update ..), exec_bind (exec_update ..), exec_bind (exec_insertAudit h.audit_id)]
  rw [exec_fetchOne_bind, fetch_addQty, if_pos rfl]
  exact exec_insertOutbox h.event_id

/-- **The cases of a call.** -/
theorem post_trade_outcome {db : Db} {req : Req} {d : Draws} (h : Fresh db d)
    (crash_point : Option CrashPoint) :
    Outcome db req crash_point d (exec (post_trade req crash_point d) ⟨db, db⟩) := by
  rw [post_trade, exec_select_bind]
  cases hrow : db.journal_entries.find? fun row => decide (row.source_event_id = req.request_id) with
  | some row =>
    exact .replay row (List.mem_of_find?_eq_some hrow) (by simpa using List.find?_some hrow)
  | none =>
    have hnew : req.request_id ∉ db.journal_entries.map (·.source_event_id) := by
      intro hmem
      obtain ⟨row, hmem, hreq⟩ := List.mem_map.mp hmem
      exact absurd (decide_eq_true hreq) (List.find?_eq_none.mp hrow row hmem)
    dsimp only
    rw [exec_fetchOne_bind]
    cases hcash : fetch req.account_id db.accounts with
    | none => exact .unknown hcash
    | some cash =>
      dsimp only
      split
      · rename_i hneg
        rw [exec_bind (exec_insertAudit h.audit_id)]
        exact .rejected cash hcash hneg
      · rename_i hneg
        have hwrite := exec_writeTrade (l := ⟨db, db⟩) h hnew
        by_cases hcrash : crash_point = some .before_commit
        · have hbody : exec (do
              writeTrade req (cashDelta req) d
              if crash_point = some .before_commit then throw .CrashInjected
              commit) ⟨db, db⟩ = (.error .CrashInjected, ⟨withTrade db req d, db⟩) := by
            rw [exec_bind hwrite, if_pos hcrash]
            rfl
          rw [exec_bind_error ((exec_tryCatch_error hbody).trans rfl)]
          exact .undone hcrash
        · have hbody : exec (do
              writeTrade req (cashDelta req) d
              if crash_point = some .before_commit then throw .CrashInjected
              commit) ⟨db, db⟩ = (.ok (), ⟨withTrade db req d, withTrade db req d⟩) := by
            rw [exec_bind hwrite, if_neg hcrash]
            rfl
          rw [exec_bind (exec_tryCatch hbody)]
          have houtcome := Outcome.posted (d := d) cash hnew hcash (not_lt.mp hneg) hcrash
          by_cases hafter : crash_point = some .after_commit_before_publish
          · rw [if_pos hafter] at houtcome ⊢
            exact houtcome
          · rw [if_neg hafter] at houtcome ⊢
            exact houtcome

end Ledger

end TradePulse.Outbox
