import TradePulse.Ledger.DoubleEntry
import TradePulse.Ledger.Reads
import TradePulse.Ledger.Serial
import Mathlib.Data.List.Pairwise

/-! # Accounts do not influence each other

Fix an account. The other accounts' statements write only rows of theirs, under
identifiers that are not its own; its own statements ask only for its rows and
its identifiers. So the first change nothing that the second see, and two
ledgers that agree on the account answer its calls alike. -/
namespace TradePulse.Ledger
open TradePulse.Core TradePulse.Core.Prog TradePulse.Core.Runs TradePulse.Core.Transactions

/-! ## Statement -/

/-- The account a call is made for. -/
def Call.account : Call → String
  | .postTrade _ req => req.account_id
  | .creditAccount a _ _ => a

def Call.requestId? : Call → Option UUID
  | .postTrade _ req => some req.request_id
  | .creditAccount .. => none

def callsOf (account : String) (cs : List ServedCall) : List ServedCall :=
  cs.filter (·.call.account = account)

/-- The answers that the account's calls get in a run of all calls. -/
def answersOf (account : String) (cs : List ServedCall) (answers : List (Except LedgerError Reply)) :
    List (Except LedgerError Reply) :=
  ((cs.zip answers).filter (·.1.call.account = account)).map (·.2)

namespace Db

def tradesOf (db : Db) (account : String) : List Trade :=
  db.trades.filter (·.account_id.val = account)

def entriesOf (db : Db) (account : String) : List JournalEntry :=
  db.journal_entries.filter (·.account_id.val = account)

/-- The lines of the account's entries. -/
def linesOfAccount (db : Db) (account : String) : List JournalLine :=
  db.journal_lines.filter fun l =>
    (db.entriesOf account).any (·.journal_entry_id = l.journal_entry_id)

def auditOf (db : Db) (account : String) : List AuditRow :=
  db.audit_log.filter (·.account_id.val = account)

def outboxRowsOf (db : Db) (account : String) : List (OutboxRow LedgerUpdatedEnvelope) :=
  db.outbox_events.filter (·.payload.data.account_id = account)

end Db

/-- Two ledgers hold the same of an account, and read the same to it. -/
structure SameAccount (account : String) (db db' : Db) : Prop where
  cash : db.getCash account = db'.getCash account
  trades : db.tradesOf account = db'.tradesOf account
  entries : db.entriesOf account = db'.entriesOf account
  lines : db.linesOfAccount account = db'.linesOfAccount account
  audit_log : db.auditOf account = db'.auditOf account
  outbox : db.outboxRowsOf account = db'.outboxRowsOf account
  balances : db.balances (some account) = db'.balances (some account)
  positions : ∀ server, db.positions server (some account) = db'.positions server (some account)
  history : ∀ status, db.history (some account) status = db'.history (some account) status
  audit : db.audit (some account) = db'.audit (some account)

/-- The identifiers drawn by different calls differ, none is a request id, and
no request id is used for two accounts. -/
structure Apart (cs : List ServedCall) : Prop where
  drawn : cs.Pairwise fun c c' => ∀ k l, (c.supply k).uuid ≠ (c'.supply l).uuid
  asked : ∀ c ∈ cs, ∀ c' ∈ cs, ∀ k, c'.call.requestId? ≠ some (c.supply k).uuid
  owned : ∀ c ∈ cs, ∀ c' ∈ cs, ∀ r, c.call.requestId? = some r → c'.call.requestId? = some r →
    c.call.account = c'.call.account

/-! ## Statements of an account -/

/-- The statement asks for rows of the account only, under its identifiers. -/
def Statement.Owned (account : String) (ids : UUID → Prop) : Statement → Prop
  | .findTradeByRequestId r => ids r
  | .getCash a => a = account
  | .positionAfter a _ => a = account
  | .insertTrade i r a _ _ _ _ _ _ _ => ids i ∧ ids r ∧ a = account ∧ a.length ≤ 64
  | .insertJournalEntry j r a _ => ids j ∧ ids r ∧ a = account ∧ a.length ≤ 64
  | .insertJournalLine j _ _ _ => ids j
  | .updateCash a _ => a = account
  | .insertAudit i a _ _ _ _ _ => ids i ∧ a = account ∧ a.length ≤ 64
  | .insertOutbox i _ p _ => ids i ∧ p.data.account_id = account
  | .now | .randomUUID => True

/-- What an account's statements are given: its identifiers, and the cash of an
account whose id fits its column. -/
def Statement.Gives (ids : UUID → Prop) : (i : Statement) → i.Result → Prop
  | .randomUUID, u => ids u
  | .getCash a, cash => cash.isSome = true → a.length ≤ 64
  | _, _ => True

section Owned

variable {ids : UUID → Prop} {is : List Statement}

/-- A program of the account's statements, whatever it raises. -/
abbrev OwnedBy (account : String) (ids : UUID → Prop) {α : Type} (is : List Statement)
    (p : Tx α) : Prop :=
  p.Under (Statement.Gives ids) (fun _ => Statement.Owned account ids) (fun _ => True) is

theorem under_correlationIdOr {α : Type} {A : (i : Statement) → i.Result → Prop}
    {P : List Statement → Statement → Prop} {X : LedgerError → Prop} {mdc : Option String}
    {f : String → Tx α} (hdraw : P is .randomUUID)
    (hf : ∀ c is', (∀ i ∈ is', i = .randomUUID) → (f c).Under A P X (is ++ is')) :
    (correlationIdOr mdc >>= f).Under A P X is := by
  have drawn : ((UUID.toString <$> randomUUID) >>= f).Under A P X is := by
    rw [map_bind]
    exact under_perform hdraw fun _ _ => hf _ _ (by simp)
  unfold correlationIdOr
  split
  · split
    · exact drawn
    · have := hf (by assumption) [] (by simp)
      rwa [List.append_nil] at this
  · exact drawn

theorem settle_owned {mdc : Option String} {req : TradeRequestDto} {j : UUID} {p : BigDecimal}
    {now : OffsetDateTime} (hlen : req.account_id.length ≤ 64) :
    OwnedBy req.account_id ids is (settle mdc req j p now) := by
  unfold settle
  refine under_perform rfl fun _ _ => under_perform trivial fun i hi => ?_
  refine under_perform ⟨hi, rfl, hlen⟩ fun _ _ => under_perform trivial fun o ho => ?_
  simp only [buildLedgerUpdatedEnvelope, bind_assoc, pure_eq, ret_bind]
  refine under_correlationIdOr trivial fun c _ _ => under_perform trivial fun e _ => ?_
  exact under_perform ⟨ho, rfl⟩ fun _ _ => trivial

theorem postTrade_owned {rules : ComplianceRules} {mdc : Option String} {req : TradeRequestDto}
    (hreq : ids req.request_id) : OwnedBy req.account_id ids is (postTrade rules mdc req) := by
  rw [postTrade_eq]
  refine under_perform hreq fun existing _ => ?_
  cases existing with
  | some existing => trivial
  | none =>
    refine under_perform trivial fun now _ => under_perform rfl fun cash hcash => ?_
    cases cash with
    | none => trivial
    | some cash =>
      have hlen := hcash rfl
      refine under_perform rfl fun p _ => ?_
      cases hv : rules.firstViolation (cash + req.cashDelta) (p + req.signedQty) with
      | some reason =>
        rw [comply_some hv]
        refine under_perform trivial fun i hi => under_perform ⟨hi, hreq, rfl, hlen⟩ fun _ _ => ?_
        exact under_perform trivial fun k hk => under_perform ⟨hk, rfl, hlen⟩ fun _ _ => trivial
      | none =>
        rw [comply_none hv]
        refine under_perform trivial fun i hi => under_perform trivial fun j hj => ?_
        refine under_perform ⟨hi, hreq, rfl, hlen⟩ fun _ _ => ?_
        refine under_perform ⟨hj, hreq, rfl, hlen⟩ fun _ _ => ?_
        exact under_perform hj fun _ _ => under_perform hj fun _ _ => settle_owned hlen

theorem creditAccount_owned {account : String} {amount : BigDecimal} {reason : Option String} :
    OwnedBy account ids is (creditAccount account amount reason) := by
  unfold creditAccount
  split
  · trivial
  · refine under_perform rfl fun cash hcash => ?_
    cases cash with
    | none => trivial
    | some cash =>
      have hlen := hcash rfl
      refine under_perform trivial fun now _ => under_perform trivial fun r hr => ?_
      refine under_perform trivial fun j hj => under_perform ⟨hj, hr, rfl, hlen⟩ fun _ _ => ?_
      refine under_perform hj fun _ _ => under_perform hj fun _ _ => under_perform rfl fun _ _ => ?_
      exact under_perform trivial fun k hk => under_perform ⟨hk, rfl, hlen⟩ fun _ _ => trivial

theorem service_owned {rules : ComplianceRules} {c : Call}
    (h : ∀ r, c.requestId? = some r → ids r) : OwnedBy c.account ids [] (service rules c) := by
  cases c with
  | postTrade mdc req => exact (postTrade_owned (h _ rfl)).map
  | creditAccount a x v => exact creditAccount_owned.map

end Owned

/-! ## What they write -/

/-- The row belongs to the account and carries its identifiers. -/
def Write.Of (account : String) (ids : UUID → Prop) : Write → Prop
  | .trade t => t.account_id.val = account ∧ ids t.trade_id ∧ ids t.request_id
  | .journalEntry e =>
    e.account_id.val = account ∧ ids e.journal_entry_id ∧ ids e.source_event_id
  | .journalLine l => ids l.journal_entry_id
  | .account a => a.account_id.val = account
  | .audit a => a.account_id.val = account ∧ ids a.audit_id
  | .outbox o => o.payload.data.account_id = account ∧ ids o.event_id

theorem insertJournalLine_entry {db : Db} {j : UUID} {a : String} {d c : BigDecimal}
    {l : JournalLine} (h : db.insertJournalLine j a d c = .ok l) :
    ∃ e ∈ db.journal_entries, e.journal_entry_id = j := by
  simp only [Db.insertJournalLine, except_bind_ok, require_ok, varchar_ok, numeric_ok] at h
  obtain ⟨_, _, _, _, _, _, -, -, -, -, -, -, -, hentry, -⟩ := h
  exact hentry

theorem exec_owned {account : String} {ids : UUID → Prop} {i : Statement} {w : Ambient} {db : Db}
    {r : i.Result} {b : Write} (hi : i.Owned account ids) (h : exec i w db = .ok (r, some b)) :
    b.Of account ids ∧ ∀ l, b = .journalLine l →
      ∃ e ∈ db.journal_entries, e.journal_entry_id = l.journal_entry_id := by
  cases i with
  | insertTrade =>
    obtain ⟨t, ht, heq⟩ := inserted_ok.mp h
    cases heq
    have ht := insertTrade_ok ht
    obtain ⟨hi, hr, rfl, hlen⟩ := hi
    exact ⟨⟨Varchar.store_of_length hlen ht.account_id, ht.trade_id ▸ hi, ht.request_id ▸ hr⟩, by rintro _ ⟨⟩⟩
  | insertJournalEntry =>
    obtain ⟨e, he, heq⟩ := inserted_ok.mp h
    cases heq
    have he := insertJournalEntry_ok he
    obtain ⟨hj, hr, rfl, hlen⟩ := hi
    exact ⟨⟨Varchar.store_of_length hlen he.account_id, he.journal_entry_id ▸ hj,
      he.source_event_id ▸ hr⟩, by rintro _ ⟨⟩⟩
  | insertJournalLine =>
    obtain ⟨l, hl, heq⟩ := inserted_ok.mp h
    cases heq
    have hid := (insertJournalLine_ok hl).journal_entry_id
    refine ⟨?_, ?_⟩
    · rw [Write.Of, hid]
      exact hi
    · rintro _ ⟨⟩
      rw [hid]
      exact insertJournalLine_entry hl
  | updateCash i d =>
    cases hc : db.updateCash i d with
    | error e => simp [exec, hc, Except.map] at h
    | ok o =>
      cases o with
      | none => simp [exec, hc, Except.map] at h
      | some a =>
        simp only [exec, hc, Except.map, Option.map_some, Except.ok.injEq, Prod.mk.injEq,
          Option.some.injEq, true_and] at h
        subst h
        rcases updateCash_ok hc with ⟨hn, -⟩ | ⟨a', b', hb, hu⟩
        · cases hn
        · cases hb
          have hfind : a'.account_id.val = i := by simpa using List.find?_some hu.find
          refine ⟨?_, by rintro _ ⟨⟩⟩
          rw [Write.Of, hu.account_id, hfind]
          exact hi
  | insertAudit =>
    obtain ⟨a, ha, heq⟩ := inserted_ok.mp h
    cases heq
    have ha := insertAudit_ok ha
    obtain ⟨hi, rfl, hlen⟩ := hi
    exact ⟨⟨Varchar.store_of_length hlen ha.account_id, ha.audit_id ▸ hi⟩, by rintro _ ⟨⟩⟩
  | insertOutbox =>
    obtain ⟨o, ho, heq⟩ := inserted_ok.mp h
    cases heq
    have ho := insertOutbox_ok ho
    exact ⟨⟨ho.payload ▸ hi.2, ho.event_id ▸ hi.1⟩, by rintro _ ⟨⟩⟩
  | _ => simp [exec] at h

theorem exec_gives {ids : UUID → Prop} {i : Statement} {w : Ambient} {db : Db}
    {r : i.Result} {b : Option Write} (hw : ids w.uuid) (h : exec i w db = .ok (r, b)) :
    i.Gives ids r := by
  cases i with
  | randomUUID =>
    rw [← (Prod.mk.inj (Except.ok.inj h)).1]
    exact hw
  | getCash a =>
    intro hsome
    obtain ⟨cash, hcash⟩ := Option.isSome_iff_exists.mp hsome
    rw [← (Prod.mk.inj (Except.ok.inj h)).1] at hcash
    exact length_of_getCash hcash
  | _ => trivial

/-! ## Ledgers alike to an account -/

/-- The rows of the account carry identifiers of `mine`, no others do. -/
structure Clean (account : String) (mine : UUID → Prop) (db : Db) : Prop where
  trade : ∀ t ∈ db.trades, (t.account_id.val = account ∧ mine t.request_id) ∨
    (t.account_id.val ≠ account ∧ ¬ mine t.trade_id ∧ ¬ mine t.request_id)
  entry : ∀ e ∈ db.journal_entries, (e.account_id.val = account ∧ mine e.journal_entry_id) ∨
    (e.account_id.val ≠ account ∧ ¬ mine e.journal_entry_id ∧ ¬ mine e.source_event_id)
  line : ∀ l ∈ db.journal_lines, mine l.journal_entry_id →
    ∃ e ∈ db.journal_entries, e.journal_entry_id = l.journal_entry_id
  audit : ∀ a ∈ db.audit_log, a.account_id.val = account ∨ ¬ mine a.audit_id
  outbox : ∀ o ∈ db.outbox_events, o.payload.data.account_id = account ∨ ¬ mine o.event_id

/-- Identifiers of the account itself, or of another one and not its own. -/
def Side (account : String) (mine : UUID → Prop) (owner : String) (ids : UUID → Prop) : Prop :=
  (owner = account ∧ ∀ u, ids u → mine u) ∨ (owner ≠ account ∧ ∀ u, ids u → ¬ mine u)

section Alike

variable {account owner : String} {mine ids : UUID → Prop} {db db' : Db}

theorem Clean.apply {b : Write} (h : Clean account mine db) (hside : Side account mine owner ids)
    (hb : b.Of owner ids) (hentry : ∀ l, b = .journalLine l →
      ∃ e ∈ db.journal_entries, e.journal_entry_id = l.journal_entry_id) :
    Clean account mine (db.apply b) := by
  cases b with
  | trade t =>
    refine ⟨fun u hu => ?_, h.entry, h.line, h.audit, h.outbox⟩
    rcases List.mem_append.mp hu with hu | hu
    · exact h.trade u hu
    · rw [List.mem_singleton.mp hu]
      obtain ⟨rfl, hi, hr⟩ := hb
      rcases hside with ⟨ho, hm⟩ | ⟨ho, hm⟩
      · exact .inl ⟨ho, hm _ hr⟩
      · exact .inr ⟨ho, hm _ hi, hm _ hr⟩
  | journalEntry e =>
    refine ⟨h.trade, fun f hf => ?_, fun l hl hm => ?_, h.audit, h.outbox⟩
    · rcases List.mem_append.mp hf with hf | hf
      · exact h.entry f hf
      · rw [List.mem_singleton.mp hf]
        obtain ⟨rfl, hj, hr⟩ := hb
        rcases hside with ⟨ho, hm⟩ | ⟨ho, hm⟩
        · exact .inl ⟨ho, hm _ hj⟩
        · exact .inr ⟨ho, hm _ hj, hm _ hr⟩
    · obtain ⟨f, hf, hid⟩ := h.line l hl hm
      exact ⟨f, List.mem_append_left _ hf, hid⟩
  | journalLine l =>
    refine ⟨h.trade, h.entry, fun k hk hm => ?_, h.audit, h.outbox⟩
    rcases List.mem_append.mp hk with hk | hk
    · exact h.line k hk hm
    · rw [List.mem_singleton.mp hk]
      exact hentry l rfl
  | account a => exact ⟨h.trade, h.entry, h.line, h.audit, h.outbox⟩
  | audit a =>
    refine ⟨h.trade, h.entry, h.line, fun c hc => ?_, h.outbox⟩
    rcases List.mem_append.mp hc with hc | hc
    · exact h.audit c hc
    · rw [List.mem_singleton.mp hc]
      obtain ⟨rfl, hi⟩ := hb
      rcases hside with ⟨ho, -⟩ | ⟨-, hm⟩
      · exact .inl ho
      · exact .inr (hm _ hi)
  | outbox o =>
    refine ⟨h.trade, h.entry, h.line, h.audit, fun p hp => ?_⟩
    rcases List.mem_append.mp hp with hp | hp
    · exact h.outbox p hp
    · rw [List.mem_singleton.mp hp]
      obtain ⟨rfl, hi⟩ := hb
      rcases hside with ⟨ho, -⟩ | ⟨-, hm⟩
      · exact .inl ho
      · exact .inr (hm _ hi)

/-- Two clean ledgers with the same accounts and the same rows of `account`. -/
structure Alike (account : String) (mine : UUID → Prop) [DecidablePred mine] (db db' : Db) :
    Prop where
  left : Clean account mine db
  right : Clean account mine db'
  ids : db.accounts.map (·.account_id) = db'.accounts.map (·.account_id)
  rows : db.accounts.filter (·.account_id.val = account) =
    db'.accounts.filter (·.account_id.val = account)
  trades : db.tradesOf account = db'.tradesOf account
  entries : db.entriesOf account = db'.entriesOf account
  lines : db.journal_lines.filter (fun l => mine l.journal_entry_id) =
    db'.journal_lines.filter (fun l => mine l.journal_entry_id)
  audit : db.auditOf account = db'.auditOf account
  outbox : db.outboxRowsOf account = db'.outboxRowsOf account

variable [DecidablePred mine]

theorem filter_updateRow {a : Account} {rows : List Account} {i : String}
    (h : a.account_id.val ≠ i) : (updateRow a rows).filter (·.account_id.val = i) =
      rows.filter (·.account_id.val = i) := by
  refine filter_update_of_not (fun b hb => ?_) (fun b hb => ?_) rows
  · rw [hb]
  · rw [hb]
    exact decide_eq_false h

/-- A row of another account changes nothing that the account has. -/
theorem Alike.foreign {b : Write} (h : Alike account mine db db') (hne : owner ≠ account)
    (hm : ∀ u, ids u → ¬ mine u) (hb : b.Of owner ids) (hclean : Clean account mine (db.apply b)) :
    Alike account mine (db.apply b) db' := by
  cases b with
  | trade t =>
    refine ⟨hclean, h.right, h.ids, h.rows, ?_, h.entries, h.lines, h.audit, h.outbox⟩
    rw [← h.trades]
    simp [Db.tradesOf, Db.apply, List.filter_append, hb.1, hne]
  | journalEntry e =>
    refine ⟨hclean, h.right, h.ids, h.rows, h.trades, ?_, h.lines, h.audit, h.outbox⟩
    rw [← h.entries]
    simp [Db.entriesOf, Db.apply, List.filter_append, hb.1, hne]
  | journalLine l =>
    refine ⟨hclean, h.right, h.ids, h.rows, h.trades, h.entries, ?_, h.audit, h.outbox⟩
    rw [← h.lines]
    simp [Db.apply, List.filter_append, hm _ hb]
  | account a =>
    have hrows : (updateRow a db.accounts).filter (·.account_id.val = account) =
        db.accounts.filter (·.account_id.val = account) :=
      filter_updateRow (by rw [show a.account_id.val = owner from hb]; exact hne)
    exact ⟨hclean, h.right, (updateRow_ids a _).trans h.ids, hrows.trans h.rows, h.trades,
      h.entries, h.lines, h.audit, h.outbox⟩
  | audit a =>
    refine ⟨hclean, h.right, h.ids, h.rows, h.trades, h.entries, h.lines, ?_, h.outbox⟩
    rw [← h.audit]
    simp [Db.auditOf, Db.apply, List.filter_append, hb.1, hne]
  | outbox o =>
    refine ⟨hclean, h.right, h.ids, h.rows, h.trades, h.entries, h.lines, h.audit, ?_⟩
    rw [← h.outbox]
    simp [Db.outboxRowsOf, Db.apply, List.filter_append, hb.1, hne]

theorem filter_updateRow_congr {a : Account} {rows rows' : List Account} {i : String}
    (h : rows.filter (·.account_id.val = i) = rows'.filter (·.account_id.val = i)) :
    (updateRow a rows).filter (·.account_id.val = i) =
      (updateRow a rows').filter (·.account_id.val = i) := by
  have hfilter : ∀ l : List Account, (updateRow a l).filter (·.account_id.val = i) =
      updateRow a (l.filter (·.account_id.val = i)) :=
    filter_update fun b hb => by rw [hb]
  rw [hfilter, hfilter, h]

/-- The same row in both is the same row in both. -/
theorem Alike.own {b : Write} (h : Alike account mine db db')
    (hclean : Clean account mine (db.apply b)) (hclean' : Clean account mine (db'.apply b)) :
    Alike account mine (db.apply b) (db'.apply b) := by
  cases b with
  | trade t =>
    refine ⟨hclean, hclean', h.ids, h.rows, ?_, h.entries, h.lines, h.audit, h.outbox⟩
    simp only [Db.tradesOf, Db.apply, List.filter_append]
    rw [show db.trades.filter _ = db'.trades.filter _ from h.trades]
  | journalEntry e =>
    refine ⟨hclean, hclean', h.ids, h.rows, h.trades, ?_, h.lines, h.audit, h.outbox⟩
    simp only [Db.entriesOf, Db.apply, List.filter_append]
    rw [show db.journal_entries.filter _ = db'.journal_entries.filter _ from h.entries]
  | journalLine l =>
    refine ⟨hclean, hclean', h.ids, h.rows, h.trades, h.entries, ?_, h.audit, h.outbox⟩
    simp only [Db.apply, List.filter_append, h.lines]
  | account a =>
    have hrows := filter_updateRow_congr (a := a) h.rows
    exact ⟨hclean, hclean', (updateRow_ids a _).trans (h.ids.trans (updateRow_ids a _).symm),
      hrows, h.trades, h.entries, h.lines, h.audit, h.outbox⟩
  | audit a =>
    refine ⟨hclean, hclean', h.ids, h.rows, h.trades, h.entries, h.lines, ?_, h.outbox⟩
    simp only [Db.auditOf, Db.apply, List.filter_append]
    rw [show db.audit_log.filter _ = db'.audit_log.filter _ from h.audit]
  | outbox o =>
    refine ⟨hclean, hclean', h.ids, h.rows, h.trades, h.entries, h.lines, h.audit, ?_⟩
    simp only [Db.outboxRowsOf, Db.apply, List.filter_append]
    rw [show db.outbox_events.filter _ = db'.outbox_events.filter _ from h.outbox]

/-! ## An account's statements see nothing else -/

theorem find?_of_filter {α : Type} {p q : α → Bool} {l : List α}
    (h : ∀ a ∈ l, p a = true → q a = true) : l.find? p = (l.filter q).find? p := by
  induction l with
  | nil => rfl
  | cons a l ih =>
    have ih := ih fun b hb => h b (List.mem_cons_of_mem _ hb)
    by_cases hp : p a = true
    · rw [List.filter_cons_of_pos (h a (List.mem_cons_self ..) hp), List.find?_cons_of_pos hp,
        List.find?_cons_of_pos hp]
    · rw [List.find?_cons_of_neg hp, ih, List.filter_cons]
      split
      · rw [List.find?_cons_of_neg hp]
      · rfl

/-- What the rows outside a filter meet anyway depends on the filter alone. -/
theorem forall_mem_filter {α : Type} {P : α → Prop} {q : α → Bool} {l l' : List α}
    (hl : ∀ a ∈ l, q a = false → P a) (hl' : ∀ a ∈ l', q a = false → P a)
    (h : l.filter q = l'.filter q) : (∀ a ∈ l, P a) ↔ ∀ a ∈ l', P a := by
  have key : ∀ {m m' : List α}, (∀ a ∈ m', q a = false → P a) → m.filter q = m'.filter q →
      (∀ a ∈ m, P a) → ∀ a ∈ m', P a := by
    intro m m' hm' heq hm a ha
    cases hq : q a with
    | false => exact hm' a ha hq
    | true =>
      have hmem : a ∈ m'.filter q := List.mem_filter.mpr ⟨ha, hq⟩
      rw [← heq] at hmem
      exact hm a (List.mem_filter.mp hmem).1
  exact ⟨key hl' h, key hl h.symm⟩

theorem require_congr {p q : Prop} [Decidable p] [Decidable q] {e : LedgerError} (h : p ↔ q) :
    require p e = require q e := by
  unfold require
  by_cases hp : p
  · rw [if_pos hp, if_pos (h.mp hp)]
  · rw [if_neg hp, if_neg (mt h.mpr hp)]

namespace Alike

variable (h : Alike account mine db db')
include h

theorem find_row : db.accounts.find? (·.account_id.val = account) =
    db'.accounts.find? (·.account_id.val = account) := by
  rw [← List.head?_filter, ← List.head?_filter, h.rows]

theorem getCash : db.getCash account = db'.getCash account := by
  rw [Db.getCash, h.find_row, Db.getCash]

theorem findTrade {r : UUID} (hr : mine r) :
    db.findTradeByRequestId r = db'.findTradeByRequestId r := by
  have ht : ∀ {d : Db}, Clean account mine d → d.trades.find? (·.request_id = r) =
      (d.tradesOf account).find? (·.request_id = r) := by
    intro d hd
    refine find?_of_filter fun t ht heq => ?_
    rcases hd.trade t ht with ⟨ha, -⟩ | ⟨-, -, hno⟩
    · simpa using ha
    · exact absurd hr (of_decide_eq_true heq ▸ hno)
  have he : ∀ {d : Db}, Clean account mine d → d.journal_entries.find? (·.source_event_id = r) =
      (d.entriesOf account).find? (·.source_event_id = r) := by
    intro d hd
    refine find?_of_filter fun e he heq => ?_
    rcases hd.entry e he with ⟨ha, -⟩ | ⟨-, -, hno⟩
    · simpa using ha
    · exact absurd hr (of_decide_eq_true heq ▸ hno)
  rw [findTradeByRequestId_eq, findTradeByRequestId_eq, ht h.left, ht h.right, he h.left,
    he h.right, h.trades, h.entries]

theorem netPosition (y : String) : db.netPosition account y = db'.netPosition account y := by
  have key : ∀ d : Db, d.trades.filter (·.isPosted account y) =
      (d.tradesOf account).filter (·.isPosted account y) := by
    intro d
    rw [Db.tradesOf, List.filter_filter]
    refine List.filter_congr fun t _ => ?_
    cases hp : t.isPosted account y with
    | false => rfl
    | true =>
      simp only [Trade.isPosted, Bool.and_eq_true, decide_eq_true_eq] at hp
      simp [hp.1.1]
  rw [Db.netPosition, key, h.trades, ← key, Db.netPosition]

theorem hasAccount (ac : Varchar 64) :
    (∃ a ∈ db.accounts, a.account_id = ac) ↔ ∃ a ∈ db'.accounts, a.account_id = ac := by
  rw [← List.mem_map, h.ids, List.mem_map]

theorem insertTrade {i r : UUID} {y d : String} {q p : BigDecimal} {s : TradeStatus}
    {v : Option String} {c : OffsetDateTime} (hi : mine i) (hr : mine r) :
    db.insertTrade i r account y d q p s v c = db'.insertTrade i r account y d q p s v c := by
  have other : ∀ {d : Db}, Clean account mine d → ∀ t ∈ d.trades,
      decide (t.account_id.val = account) = false → t.trade_id ≠ i ∧ t.request_id ≠ r := by
    intro d hd t ht hne
    rcases hd.trade t ht with ⟨ha, -⟩ | ⟨-, hno, hno'⟩
    · exact absurd ha (of_decide_eq_false hne)
    · exact ⟨fun he => hno (he ▸ hi), fun he => hno' (he ▸ hr)⟩
  have hid : (∀ t ∈ db.trades, t.trade_id ≠ i) ↔ ∀ t ∈ db'.trades, t.trade_id ≠ i :=
    forall_mem_filter (fun t ht hne => (other h.left t ht hne).1)
      (fun t ht hne => (other h.right t ht hne).1) h.trades
  have hreq : (∀ t ∈ db.trades, t.request_id ≠ r) ↔ ∀ t ∈ db'.trades, t.request_id ≠ r :=
    forall_mem_filter (fun t ht hne => (other h.left t ht hne).2)
      (fun t ht hne => (other h.right t ht hne).2) h.trades
  unfold Db.insertTrade
  refine bind_congr fun ac => bind_congr fun sy => bind_congr fun si => bind_congr fun qu => ?_
  refine bind_congr fun pr => bind_congr fun re => bind_congr fun _ => bind_congr fun _ => ?_
  refine bind_congr fun _ => ?_
  rw [require_congr hid, require_congr hreq, require_congr (h.hasAccount ac)]

theorem insertJournalEntry {j r : UUID} {c : OffsetDateTime} (hj : mine j) (hr : mine r) :
    db.insertJournalEntry j r account c = db'.insertJournalEntry j r account c := by
  have other : ∀ {d : Db}, Clean account mine d → ∀ e ∈ d.journal_entries,
      decide (e.account_id.val = account) = false →
      e.journal_entry_id ≠ j ∧ e.source_event_id ≠ r := by
    intro d hd e he hne
    rcases hd.entry e he with ⟨ha, -⟩ | ⟨-, hno, hno'⟩
    · exact absurd ha (of_decide_eq_false hne)
    · exact ⟨fun he => hno (he ▸ hj), fun he => hno' (he ▸ hr)⟩
  have hid : (∀ e ∈ db.journal_entries, e.journal_entry_id ≠ j) ↔
      ∀ e ∈ db'.journal_entries, e.journal_entry_id ≠ j :=
    forall_mem_filter (fun e he hne => (other h.left e he hne).1)
      (fun e he hne => (other h.right e he hne).1) h.entries
  have hsource : (∀ e ∈ db.journal_entries, e.source_event_id ≠ r) ↔
      ∀ e ∈ db'.journal_entries, e.source_event_id ≠ r :=
    forall_mem_filter (fun e he hne => (other h.left e he hne).2)
      (fun e he hne => (other h.right e he hne).2) h.entries
  unfold Db.insertJournalEntry
  refine bind_congr fun ac => ?_
  rw [require_congr hid, require_congr hsource, require_congr (h.hasAccount ac)]

theorem insertJournalLine {j : UUID} {ref : String} {d c : BigDecimal} (hj : mine j) :
    db.insertJournalLine j ref d c = db'.insertJournalLine j ref d c := by
  have key : ∀ {d : Db}, Clean account mine d → ((∃ e ∈ d.journal_entries, e.journal_entry_id = j) ↔
      ∃ e ∈ d.entriesOf account, e.journal_entry_id = j) := by
    intro d hd
    constructor
    · rintro ⟨e, he, hid⟩
      rcases hd.entry e he with ⟨ha, -⟩ | ⟨-, hno, -⟩
      · exact ⟨e, List.mem_filter.mpr ⟨he, by simpa using ha⟩, hid⟩
      · exact absurd hj (hid ▸ hno)
    · rintro ⟨e, he, hid⟩
      exact ⟨e, (List.mem_filter.mp he).1, hid⟩
  have hentry : (∃ e ∈ db.journal_entries, e.journal_entry_id = j) ↔
      ∃ e ∈ db'.journal_entries, e.journal_entry_id = j := by
    rw [key h.left, key h.right, h.entries]
  unfold Db.insertJournalLine
  refine bind_congr fun re => bind_congr fun de => bind_congr fun cr => bind_congr fun _ => ?_
  refine bind_congr fun _ => bind_congr fun _ => ?_
  rw [require_congr hentry]

theorem insertAudit {i r : UUID} {n : AuditAction} {o : AuditOutcome} {v : Option String}
    {c : OffsetDateTime} (hi : mine i) :
    db.insertAudit i account r n o v c = db'.insertAudit i account r n o v c := by
  have other : ∀ {d : Db}, Clean account mine d → ∀ a ∈ d.audit_log,
      decide (a.account_id.val = account) = false → a.audit_id ≠ i := by
    intro d hd a ha hne heq
    rcases hd.audit a ha with hac | hno
    · exact absurd hac (of_decide_eq_false hne)
    · exact hno (heq ▸ hi)
  unfold Db.insertAudit
  refine bind_congr fun ac => bind_congr fun re => ?_
  rw [require_congr (forall_mem_filter (other h.left) (other h.right) h.audit)]

theorem insertOutbox {i : UUID} {t : String} {p : LedgerUpdatedEnvelope} {c : OffsetDateTime}
    (hi : mine i) : db.insertOutbox i t p c = db'.insertOutbox i t p c := by
  have other : ∀ {d : Db}, Clean account mine d → ∀ o ∈ d.outbox_events,
      decide (o.payload.data.account_id = account) = false → o.event_id ≠ i := by
    intro d hd o ho hne heq
    rcases hd.outbox o ho with hac | hno
    · exact absurd hac (of_decide_eq_false hne)
    · exact hno (heq ▸ hi)
  unfold Db.insertOutbox
  refine bind_congr fun ty => ?_
  rw [require_congr (forall_mem_filter (other h.left) (other h.right) h.outbox)]

/-- The account's statements are answered alike. -/
theorem exec_eq {i : Statement} (hi : i.Owned account mine) (w : Ambient) :
    exec i w db = exec i w db' := by
  cases i with
  | findTradeByRequestId r => exact read_eq (h.findTrade hi)
  | getCash a =>
    cases hi
    exact read_eq h.getCash
  | positionAfter a y =>
    cases hi
    exact read_eq (h.netPosition y)
  | insertTrade =>
    obtain ⟨hi, hr, rfl, -⟩ := hi
    exact congrArg (inserted .trade) (h.insertTrade hi hr)
  | insertJournalEntry =>
    obtain ⟨hj, hr, rfl, -⟩ := hi
    exact congrArg (inserted .journalEntry) (h.insertJournalEntry hj hr)
  | insertJournalLine => exact congrArg (inserted .journalLine) (h.insertJournalLine hi)
  | updateCash a d =>
    cases hi
    simp only [exec, Db.updateCash, h.find_row]
  | insertAudit =>
    obtain ⟨hi, rfl, -⟩ := hi
    exact congrArg (inserted .audit) (h.insertAudit hi)
  | insertOutbox => exact congrArg (inserted .outbox) (h.insertOutbox hi.1)
  | now => rfl
  | randomUUID => rfl

end Alike

end Alike

/-! ## What is read of an account -/

section Reads

variable {account : String} {mine : UUID → Prop} {db db' : Db} [DecidablePred mine]

theorem matchesFilter_some (x y : String) : matchesFilter x (some y) = decide (x = y) := rfl

/-- The account's lines are those with its identifiers. -/
theorem Clean.linesOfAccount (h : Clean account mine db) : db.linesOfAccount account =
    db.journal_lines.filter fun l => mine l.journal_entry_id := by
  refine List.filter_congr fun l hl => ?_
  rw [Bool.eq_iff_iff, List.any_eq_true, decide_eq_true_eq]
  constructor
  · rintro ⟨e, he, hid⟩
    obtain ⟨hmem, ha⟩ := List.mem_filter.mp he
    rcases h.entry e hmem with ⟨-, hm⟩ | ⟨hne, -, -⟩
    · exact of_decide_eq_true hid ▸ hm
    · exact absurd (of_decide_eq_true ha) hne
  · intro hm
    obtain ⟨e, he, hid⟩ := h.line l hl hm
    rcases h.entry e he with ⟨ha, -⟩ | ⟨-, hno, -⟩
    · exact ⟨e, List.mem_filter.mpr ⟨he, decide_eq_true ha⟩, decide_eq_true hid⟩
    · exact absurd hm (hid ▸ hno)

/-- Its trades are joined by its entries. -/
theorem Alike.joined (h : Alike account mine db db') {t : Trade} (ht : t ∈ db.tradesOf account) :
    db.joined t = db'.joined t := by
  obtain ⟨hmem, ha⟩ := List.mem_filter.mp ht
  have hr : mine t.request_id := by
    rcases h.left.trade t hmem with ⟨-, hm⟩ | ⟨hne, -, -⟩
    · exact hm
    · exact absurd (of_decide_eq_true ha) hne
  have key : ∀ {d : Db}, Clean account mine d →
      d.journal_entries.filter (·.source_event_id = t.request_id) =
        (d.entriesOf account).filter (·.source_event_id = t.request_id) := by
    intro d hd
    rw [Db.entriesOf, List.filter_filter]
    refine List.filter_congr fun e he => ?_
    rcases hd.entry e he with ⟨ha, -⟩ | ⟨-, -, hno⟩
    · simp [ha]
    · have : e.source_event_id ≠ t.request_id := fun heq => hno (heq ▸ hr)
      simp [this]
  rw [Db.joined, key h.left, h.entries, ← key h.right, Db.joined]

theorem Alike.same (h : Alike account mine db db') : SameAccount account db db' where
  cash := h.getCash
  trades := h.trades
  entries := h.entries
  lines := by rw [h.left.linesOfAccount, h.lines, h.right.linesOfAccount]
  audit_log := h.audit
  outbox := h.outbox
  balances := by
    simp only [Db.balances, matchesFilter_some]
    rw [h.rows]
  positions server := by
    have key : ∀ d : Db, (d.trades.filter fun t => t.status = .posted &&
        matchesFilter t.account_id.val (some account)) =
        (d.tradesOf account).filter (·.status = .posted) := fun d => by
      rw [Db.tradesOf, List.filter_filter]
      rfl
    simp only [Db.positions, key, h.trades]
  history status := by
    have key : ∀ d : Db, (d.trades.filter fun t => matchesFilter t.account_id.val (some account) &&
        matchesFilter t.status.text status) =
        (d.tradesOf account).filter fun t => matchesFilter t.status.text status := fun d => by
      rw [Db.tradesOf, List.filter_filter]
      refine List.filter_congr fun t _ => ?_
      rw [matchesFilter_some, Bool.and_comm]
    simp only [Db.history, key, ← h.trades]
    refine List.flatMap_congr fun t ht => h.joined ?_
    exact (List.mem_filter.mp (List.mem_mergeSort.mp ht)).1
  audit := by
    simp only [Db.audit, matchesFilter_some]
    rw [show db.audit_log.filter _ = db'.audit_log.filter _ from h.audit]

end Reads

/-! ## Whole runs -/

/-- The identifiers of a call: those it draws and its request id. -/
def idsOf (c : ServedCall) (u : UUID) : Prop :=
  (∃ k, u = (c.supply k).uuid) ∨ c.call.requestId? = some u

section Runs

variable {rules : ComplianceRules} {account : String} {mine : UUID → Prop} {db db' : Db}
  [DecidablePred mine]

omit [DecidablePred mine] in
/-- A statement of one side keeps a ledger clean. -/
theorem Clean.exec {owner : String} {ids : UUID → Prop} {i : Statement} {w : Ambient}
    {r : i.Result} {b : Write} (h : Clean account mine db) (hside : Side account mine owner ids)
    (hi : i.Owned owner ids) (hexec : Ledger.exec i w db = .ok (r, some b)) :
    Clean account mine (db.apply b) ∧ b.Of owner ids := by
  obtain ⟨hb, hentry⟩ := exec_owned hi hexec
  exact ⟨h.apply hside hb hentry, hb⟩

variable (rules) in
/-- Another account's call is not seen. -/
theorem Alike.serve_foreign (h : Alike account mine db db') {c : ServedCall}
    (hne : c.call.account ≠ account) (hm : ∀ u, idsOf c u → ¬ mine u) :
    Alike account mine (serve rules db c).2 db' := by
  cases hc : serve rules db c with
  | mk x d =>
    cases x with
    | error e => rwa [(serve_error hc).2]
    | ok r =>
      refine solo_keeps (I := fun d => Alike account mine d db') (G := fun w => idsOf c w.uuid)
        (A := Statement.Gives (idsOf c)) (Q := fun _ => Statement.Owned c.call.account (idsOf c)) ?_
        (service_owned fun r hr => .inr hr) (fun n => .inl ⟨n, rfl⟩) h (serve_ok hc)
      intro _ i w d r b hi hw hd hexec
      refine ⟨exec_gives hw hexec, ?_⟩
      cases b with
      | none => exact hd
      | some b =>
        obtain ⟨hclean, hb⟩ := hd.left.exec (.inr ⟨hne, hm⟩) hi hexec
        exact hd.foreign hne hm hb hclean

variable (rules) in
/-- The account's own call gets one answer from both. -/
theorem Alike.serve_own (h : Alike account mine db db') {c : ServedCall}
    (heq : c.call.account = account) (hm : ∀ u, idsOf c u → mine u) :
    (serve rules db c).1 = (serve rules db' c).1 ∧
      Alike account mine (serve rules db c).2 (serve rules db' c).2 := by
  have hside : Side account mine account mine := .inl ⟨rfl, fun _ h => h⟩
  have hunder : OwnedBy c.call.account mine [] (service rules c.call) :=
    service_owned fun r hr => hm r (.inr hr)
  rw [heq] at hunder
  obtain ⟨a, t, t', h₁, h₂, hR⟩ | ⟨e, h₁, h₂⟩ := solo_alike (E := engine)
    (R := fun d d' => Alike account mine d d') (G := fun w => mine w.uuid)
    (A := Statement.Gives mine) (Q := fun _ => Statement.Owned account mine)
    (fun _ i w d d' hi hw hd => ⟨hd.exec_eq hi w, fun r b hexec => ⟨exec_gives hw hexec, by
      cases b with
      | none => exact hd
      | some b =>
        have hexec' := (hd.exec_eq hi w).symm.trans hexec
        exact hd.own (hd.left.exec hside hi hexec).1 (hd.right.exec hside hi hexec').1⟩⟩)
    hunder (fun n => hm _ (.inl ⟨n, rfl⟩)) h
  · simp only [serve, Engine.serve, h₁, h₂]
    exact ⟨trivial, hR⟩
  · simp only [serve, Engine.serve, h₁, h₂]
    exact ⟨trivial, h⟩

variable (rules) in
theorem Alike.serveAll {cs : List ServedCall} (h : Alike account mine db db')
    (hown : ∀ c ∈ cs, c.call.account = account → ∀ u, idsOf c u → mine u)
    (hforeign : ∀ c ∈ cs, c.call.account ≠ account → ∀ u, idsOf c u → ¬ mine u) :
    answersOf account cs (serveAll rules db cs).1 = (serveAll rules db' (callsOf account cs)).1 ∧
      Alike account mine (serveAll rules db cs).2 (serveAll rules db' (callsOf account cs)).2 := by
  induction cs generalizing db db' with
  | nil => exact ⟨rfl, h⟩
  | cons c cs ih =>
    have hown' := fun c' hc' => hown c' (List.mem_cons_of_mem c hc')
    have hforeign' := fun c' hc' => hforeign c' (List.mem_cons_of_mem c hc')
    by_cases ha : c.call.account = account
    · obtain ⟨hans, hnext⟩ := h.serve_own rules ha (hown c (List.mem_cons_self ..) ha)
      obtain ⟨hanswers, hrest⟩ := ih hnext hown' hforeign'
      rw [show callsOf account (c :: cs) = c :: callsOf account cs from
        List.filter_cons_of_pos (decide_eq_true ha)]
      refine ⟨?_, hrest⟩
      simp only [answersOf, Ledger.serveAll, Engine.serveAll, List.zip_cons_cons] at hanswers ⊢
      rw [List.filter_cons_of_pos (by simpa using ha), List.map_cons, hanswers]
      exact congrArg (· :: _) hans
    · have hnext := h.serve_foreign rules ha (hforeign c (List.mem_cons_self ..) ha)
      obtain ⟨hanswers, hrest⟩ := ih hnext hown' hforeign'
      rw [show callsOf account (c :: cs) = callsOf account cs from
        List.filter_cons_of_neg (by simpa using ha)]
      refine ⟨?_, hrest⟩
      simp only [answersOf, Ledger.serveAll, Engine.serveAll, List.zip_cons_cons] at hanswers ⊢
      rw [List.filter_cons_of_neg (by simpa using ha), hanswers]

end Runs

/-- The identifiers of calls for different accounts differ. -/
theorem Apart.disjoint {cs : List ServedCall} (h : Apart cs) {c c' : ServedCall} (hc : c ∈ cs)
    (hc' : c' ∈ cs) (hne : c.call.account ≠ c'.call.account) {u : UUID} (hu : idsOf c u) :
    ¬ idsOf c' u := by
  have hsupply : ∀ k l, (c.supply k).uuid ≠ (c'.supply l).uuid := by
    have hsymm : Std.Symm fun c c' : ServedCall => ∀ k l, (c.supply k).uuid ≠ (c'.supply l).uuid :=
      ⟨fun _ _ h k l => (h l k).symm⟩
    exact h.drawn.forall hc hc' fun heq => hne (congrArg (·.call.account) heq)
  rintro (⟨l, rfl⟩ | hr')
  · rcases hu with ⟨k, hk⟩ | hr
    · exact hsupply k l hk.symm
    · exact h.asked c' hc' c hc l hr
  · rcases hu with ⟨k, rfl⟩ | hr
    · exact h.asked c hc c' hc' k hr'
    · exact hne (h.owned c hc c' hc' u hr hr')

/-- **Accounts do not influence each other.** In a serial run whose calls use
identifiers of their own, an account's rows, reads and answers are those of the
run that keeps only its calls. -/
theorem accounts_apart {rules : ComplianceRules} {db : Db} (hdb : EmptyBooks db)
    {cs : List ServedCall} (hcs : Apart cs) (account : String) :
    SameAccount account (serveAll rules db cs).2 (serveAll rules db (callsOf account cs)).2 ∧
      answersOf account cs (serveAll rules db cs).1 =
        (serveAll rules db (callsOf account cs)).1 := by
  classical
  obtain ⟨⟨ht, he, ha, ho⟩, hl⟩ := hdb
  let mine : UUID → Prop := fun u => ∃ c ∈ cs, c.call.account = account ∧ idsOf c u
  have hclean : Clean account mine db :=
    ⟨by simp [ht], by simp [he], by simp [hl], by simp [ha], by simp [ho]⟩
  have hstart : Alike account mine db db :=
    ⟨hclean, hclean, rfl, rfl, rfl, rfl, rfl, rfl, rfl⟩
  obtain ⟨hanswers, hend⟩ := hstart.serveAll rules
    (fun c hc hacc u hu => ⟨c, hc, hacc, hu⟩)
    (fun c hc hacc u hu ⟨c', hc', hacc', hu'⟩ =>
      hcs.disjoint hc hc' (fun heq => hacc (heq.trans hacc')) hu hu')
  exact ⟨hend.same, hanswers⟩

theorem a_fits : "A".length ≤ 64 := by decide
theorem b_fits : "B".length ≤ 64 := by decide
theorem usd_fits : "USD".length ≤ 3 := by decide

/-- Two accounts and nothing booked. -/
def twoAccounts : Db where
  accounts := [⟨⟨"A", a_fits⟩, ⟨"USD", usd_fits⟩, thousand⟩,
    ⟨⟨"B", b_fits⟩, ⟨"USD", usd_fits⟩, thousand⟩]
  accounts_pkey := List.nodup_cons.mpr ⟨by simp, List.nodup_singleton _⟩
  trades := []
  journal_entries := []
  journal_lines := []
  audit_log := []
  outbox_events := []

/-- A trade of each account, and a credit to the second. -/
def twoTraders : List ServedCall :=
  [⟨buy 1 60 1, supplyFrom 100⟩, ⟨.creditAccount "B" 5 none, supplyFrom 200⟩,
    ⟨.postTrade none ⟨uuid 2, "B", "X", "SELL", 10, 2, none⟩, supplyFrom 300⟩]

theorem supplyFrom_ne {a b : Nat} (h : a + 32 ≤ b) (h' : b ≤ 1000) (k l : Nat) :
    (supplyFrom a k).uuid ≠ (supplyFrom b l).uuid := by
  intro heq
  have hnat := congrArg (fun u : UUID => u.bits.toNat) heq
  simp only [supplyFrom, uuid, BitVec.toNat_ofNat] at hnat
  omega

theorem uuid_ne_supplyFrom {r a : Nat} (h : r < a) (h' : a ≤ 1000) (k : Nat) :
    uuid r ≠ (supplyFrom a k).uuid := by
  intro heq
  have hnat := congrArg (fun u : UUID => u.bits.toNat) heq
  simp only [supplyFrom, uuid, BitVec.toNat_ofNat] at hnat
  omega

theorem twoTraders_apart : Apart twoTraders where
  drawn := by
    simp only [twoTraders, List.pairwise_cons, List.mem_cons, List.not_mem_nil, or_false,
      forall_eq_or_imp, forall_eq, false_imp_iff, implies_true, List.Pairwise.nil, and_true]
    exact ⟨⟨supplyFrom_ne (by decide) (by decide), supplyFrom_ne (by decide) (by decide)⟩,
      supplyFrom_ne (by decide) (by decide)⟩
  asked c hc c' hc' k heq := by
    simp only [twoTraders, List.mem_cons, List.not_mem_nil, or_false] at hc hc'
    rcases hc with rfl | rfl | rfl <;> rcases hc' with rfl | rfl | rfl <;>
      first
        | cases heq
        | exact uuid_ne_supplyFrom (by decide) (by decide) k (Option.some.inj heq)
  owned c hc c' hc' r hr hr' := by
    simp only [twoTraders, List.mem_cons, List.not_mem_nil, or_false] at hc hc'
    rcases hc with rfl | rfl | rfl <;> rcases hc' with rfl | rfl | rfl <;>
      first
        | rfl
        | exact absurd (hr.trans hr'.symm) (by decide)

theorem accounts_apart_twoTraders :
    (serveAll ⟨100⟩ twoAccounts twoTraders).2.getCash "B" = some 1025 ∧
      SameAccount "B" (serveAll ⟨100⟩ twoAccounts twoTraders).2
        (serveAll ⟨100⟩ twoAccounts (callsOf "B" twoTraders)).2 :=
  ⟨by decide +kernel,
    (accounts_apart ⟨⟨rfl, rfl, rfl, rfl⟩, rfl⟩ twoTraders_apart "B").1⟩

end TradePulse.Ledger
