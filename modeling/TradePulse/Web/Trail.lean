import TradePulse.Web.Tokens

/-! # Whose doing a row is

A row of the audit log is written by the commit of one transaction, and a
transaction is that of one exchange. So each row has an exchange of its own,
whose request asked for it and whose user was allowed to. -/
namespace TradePulse.Ledger.Web
open TradePulse.Core TradePulse.Core.Runs TradePulse.Core.Transactions

variable {τ : Type}

/-- The exchange at `n` has come to the committed transaction `t`. -/
def CommittedAt (s : App τ) (n : Nat) (t : LedgerTxn) : Prop :=
  ∃ (x : Exchange τ) (k : Nat), s.exchanges[n]? = some x ∧ x.txn = some k ∧
    s.ledger.txns[k]? = some t ∧ t.status = .committed

theorem CommittedAt.step {cfg : Config τ} {s s' : App τ} {a : Act τ} {n : Nat} {t : LedgerTxn}
    (h : CommittedAt s n t) (hstep : Step cfg s a s') : CommittedAt s' n t := by
  obtain ⟨x, k, hx, hk, ht, hdone⟩ := h
  have hput : ∀ (m : Nat) (y : Exchange τ) (p : Progress τ), s.exchanges[m]? = some y →
      (y.txn = none ∨ ({ y with progress := p } : Exchange τ).txn = y.txn) →
      ∃ x', (s.put m y p).exchanges[n]? = some x' ∧ x'.txn = some k := by
    intro m y p get hy
    by_cases hmn : m = n
    · subst hmn
      rw [get] at hx
      cases hx
      refine ⟨_, List.getElem?_set_self (List.getElem?_eq_some_iff.mp get).1, ?_⟩
      obtain hy | hy := hy
      · rw [hy] at hk
        cases hk
      · exact hy.trans hk
    · exact ⟨x, by rw [App.put, List.getElem?_set_ne hmn, hx], hk⟩
  cases hstep with
  | request r w =>
    refine ⟨x, k, ?_, hk, ht, hdone⟩
    rw [List.getElem?_append_left (List.getElem?_eq_some_iff.mp hx).1, hx]
  | @read m y q get progress =>
    obtain ⟨x', hx', hk'⟩ := hput m y _ get (.inl (by unfold Exchange.txn; rw [progress]))
    exact ⟨x', k, hx', hk', ht, hdone⟩
  | @missing m y accountId c get progress =>
    obtain ⟨x', hx', hk'⟩ := hput m y _ get (.inl (by unfold Exchange.txn; rw [progress]))
    exact ⟨x', k, hx', hk', ht, hdone⟩
  | @begin m y accountId c get progress known =>
    obtain ⟨x', hx', hk'⟩ := hput m y (.serving s.ledger.txns.length) get
      (.inl (by unfold Exchange.txn; rw [progress]))
    refine ⟨x', k, hx', hk', ?_, hdone⟩
    rw [List.getElem?_append_left (List.getElem?_eq_some_iff.mp ht).1, ht]
  | transaction later hledger =>
    obtain ⟨t', ht', -, hfin⟩ := later_of_step hledger k t ht
    obtain rfl := hfin (by simp [hdone])
    exact ⟨x, k, hx, hk, ht', hdone⟩
  | @reply m txn y u b get progress txn_get answer =>
    obtain ⟨x', hx', hk'⟩ := hput m y (.answered (some txn) b) get
      (.inr (by unfold Exchange.txn; rw [progress]))
    exact ⟨x', k, hx', hk', ht, hdone⟩

section Trail

variable {ρ : Type} {rows : Db → List ρ} {row? : Write → Option ρ} {R : Call → ρ → Prop}

variable (rows R) in
/-- The rows of a table, and the exchanges they are of. -/
structure Trail (s : App τ) (ns : List Nat) : Prop where
  own : List.Forall₂ (fun row n => ∃ t, CommittedAt s n t ∧ R t.call row) (rows s.ledger.db) ns
  done : ∀ n ∈ ns, ∃ t, CommittedAt s n t
  nodup : ns.Nodup

variable (row? R) in
/-- A transaction commits at most one row of the table. -/
def OneRow (rules : ComplianceRules) : Prop :=
  ∀ c es r st, Faithful engine (service rules) ⟨c, es, .ret r, st⟩ →
    (writesOf es).filterMap row? = [] ∨ ∃ row, (writesOf es).filterMap row? = [row] ∧ R c row

theorem Trail.frame {cfg : Config τ} {s s' : App τ} {a : Act τ} {ns : List Nat}
    (h : Trail rows R s ns) (hstep : Step cfg s a s')
    (hrows : rows s'.ledger.db = rows s.ledger.db) : Trail rows R s' ns :=
  ⟨hrows ▸ h.own.imp fun _ _ ⟨t, hat, hrec⟩ => ⟨t, hat.step hstep, hrec⟩, fun n hn =>
    let ⟨t, hat⟩ := h.done n hn
    ⟨t, hat.step hstep⟩, h.nodup⟩

theorem Trail.step {cfg : Config τ} {s s' : App τ} {a : Act τ} {ns : List Nat}
    (happly : ∀ db w, rows (db.apply w) = rows db ++ (row? w).toList)
    (hone : OneRow row? R cfg.rules) (h : Trail rows R s ns) (hw : Wired cfg s)
    (hf : ∀ t ∈ s.ledger.txns, Faithful engine (service cfg.rules) t)
    (hstep : Step cfg s a s') : ∃ ns', Trail rows R s' ns' := by
  have hwhole := hstep
  cases hstep with
  | transaction later hledger =>
    cases step_cases hledger with
    | begin c => exact absurd rfl (later c)
    | stmt get exec free => exact ⟨ns, h.frame hwhole rfl⟩
    | stop get active => exact ⟨ns, h.frame hwhole rfl⟩
    | @commit k c es r get =>
      have hrows := rows_applyAll rows row? happly s.ledger.db (writesOf es)
      obtain hnone | ⟨row, hrow, hrec⟩ := hone c es r _ (hf _ (List.mem_of_getElem? get))
      · refine ⟨ns, h.frame hwhole ?_⟩
        exact hrows.trans (by rw [hnone, List.append_nil])
      · -- the row of the transaction that commits, for the exchange that owns it
        obtain ⟨n, x, hx, hk⟩ := hw.owner k (List.getElem?_eq_some_iff.mp get).1
        have hat : CommittedAt { s with ledger := { s.ledger.put k ⟨c, es, .ret r, .committed⟩ with
            db := engine.applyAll s.ledger.db (writesOf es) } } n ⟨c, es, .ret r, .committed⟩ :=
          ⟨x, k, hx, hk, List.getElem?_set_self (List.getElem?_eq_some_iff.mp get).1, rfl⟩
        have hnew : n ∉ ns := by
          intro hn
          obtain ⟨t, y, k', hy, hk', ht, hdone⟩ := h.done n hn
          cases hx.symm.trans hy
          cases hk.symm.trans hk'
          cases get.symm.trans ht
          cases hdone
        refine ⟨ns ++ [n], ?_, fun m hm => ?_, ?_⟩
        · refine (hrows.trans (by rw [hrow])) ▸ List.rel_append ?_ (.cons ⟨_, hat, hrec⟩ .nil)
          exact h.own.imp fun _ _ ⟨t, hat, hrec⟩ => ⟨t, hat.step hwhole, hrec⟩
        · obtain hm | hm := List.mem_append.mp hm
          · obtain ⟨t, hat⟩ := h.done m hm
            exact ⟨t, hat.step hwhole⟩
          · rw [List.mem_singleton.mp hm]
            exact ⟨_, hat⟩
        · exact List.nodup_append.mpr ⟨h.nodup, List.nodup_singleton n, fun m hm n' hn' hmn =>
            hnew (List.mem_singleton.mp hn' ▸ hmn ▸ hm)⟩
  | request r w => exact ⟨ns, h.frame hwhole rfl⟩
  | read get progress => exact ⟨ns, h.frame hwhole rfl⟩
  | missing get progress => exact ⟨ns, h.frame hwhole rfl⟩
  | begin get progress known => exact ⟨ns, h.frame hwhole rfl⟩
  | reply get progress txn_get answer => exact ⟨ns, h.frame hwhole rfl⟩

/-- A table that starts empty and gets at most one row from a transaction. -/
theorem trail_of_reach {cfg : Config τ}
    (happly : ∀ db w, rows (db.apply w) = rows db ++ (row? w).toList)
    (hone : OneRow row? R cfg.rules) {ok : App τ → Act τ → Prop} {P : Db → Prop}
    (hP : ∀ db, P db → rows db = []) {s : App τ} (h : Reach (step cfg) ok (start P) s) :
    ∃ ns, Trail rows R s ns := by
  refine h.invariant_under (I := fun s => ∃ ns, Trail rows R s ns) (J := fun s => Wired cfg s ∧
    ∀ t ∈ s.ledger.txns, Faithful engine (service cfg.rules) t) (fun s hs => ?_) (fun s hs => ?_) ?_
  · have hl : Reach (ledgerStep cfg.rules) anyStep (initial P) s.ledger :=
      ledger_of_reach (fun _ _ _ _ _ _ _ _ _ => trivial) (fun _ _ _ _ => trivial) hs
    exact ⟨wired_of_reach hs, faithful hl⟩
  · refine ⟨[], ?_, fun n hn => absurd hn List.not_mem_nil, List.nodup_nil⟩
    rw [hP _ hs.1.1]
    exact .nil
  · rintro s a s' ⟨hw, hf⟩ - ⟨ns, hs⟩ - hstep
    exact hs.step happly hone hw hf (step_inv hstep)

end Trail

/-! ## The audit log -/

/-- The row is that of the call. -/
def Records (c : Call) (row : AuditRow) : Prop :=
  match c with
  | .postTrade _ req => row.action = .POST_TRADE ∧ row.source_event_id = req.request_id ∧
      Varchar.store 64 req.account_id = some row.account_id
  | .creditAccount accountId _ _ => row.action = .ADMIN_CREDIT ∧
      Varchar.store 64 accountId = some row.account_id

theorem one_audit (rules : ComplianceRules) : OneRow Write.audit? Records rules := by
  intro c es r st hf
  cases finished hf with
  | duplicate writes =>
    rw [writes]
    exact .inl rfl
  | rejected violation rows writes =>
    obtain ⟨_, _, _, ha⟩ := rows.audit_ok
    rw [writes]
    exact .inr ⟨rows.audit, rfl, ha.action, ha.source_event_id, ha.account_id⟩
  | posted trace rows writes read compliant =>
    obtain ⟨_, ha⟩ := rows.audit_ok
    rw [writes, rows.project _ fun _ => rfl]
    exact .inr ⟨rows.audit, rfl, ha.action, ha.source_event_id, ha.account_id⟩
  | credited trace drawn rows writes =>
    obtain ⟨_, _, _, _, ha⟩ := rows.audit_ok
    rw [writes, rows.project _ fun _ => rfl]
    exact .inr ⟨rows.audit, rfl, ha.action, ha.account_id⟩

/-! ## Who may do what -/

theorem users_admin {p : Passwords} {username pw : String}
    (h : (username, ⟨pw, "admin"⟩) ∈ users p) : username = "admin" := by
  simp only [users, List.mem_cons, Prod.mk.injEq, Credential.mk.injEq, List.not_mem_nil, or_false]
    at h
  obtain ⟨-, -, h⟩ | ⟨-, -, h⟩ | ⟨-, -, h⟩ | ⟨h, -⟩ := h
  · exact absurd h (by decide)
  · exact absurd h (by decide)
  · exact absurd h (by decide)
  · exact h

section Allowed

variable {cfg : Config τ} {s : App τ} {x : Exchange τ} {path : Path}

theorem allowed_role (hjwt : cfg.jwt.Documented) {ok : App τ → Act τ → Prop}
    (hok : ∀ s a, ok s a → Presented cfg s a) {P : Db → Prop}
    (h : Reach (step cfg) ok (start P) s) (hx : x ∈ s.exchanges) {roles : List String}
    (hchain : filterChain cfg.jwt x.arrived x.request.bearer path = .ok x.principal)
    (hpath : accessTo path = .hasAnyRole roles) :
    ∃ username role, role ∈ roles ∧ LoggedIn cfg s x username role := by
  have hcheck := (filterChain_ok.mp hchain).2
  rw [hpath] at hcheck
  obtain ⟨claims, role, hclaims, hrole, hmem, -⟩ := check_hasAnyRole.mp hcheck
  obtain ⟨username, role', hin, -, hrole'⟩ := logged_in hjwt hok h hx hclaims
  cases hrole.symm.trans hrole'
  exact ⟨username, role, hmem, hin⟩

theorem allowed_authenticated (hjwt : cfg.jwt.Documented) {ok : App τ → Act τ → Prop}
    (hok : ∀ s a, ok s a → Presented cfg s a) {P : Db → Prop}
    (h : Reach (step cfg) ok (start P) s) (hx : x ∈ s.exchanges)
    (hchain : filterChain cfg.jwt x.arrived x.request.bearer path = .ok x.principal)
    (hpath : accessTo path = .authenticated) : ∃ username role, LoggedIn cfg s x username role := by
  have hcheck := (filterChain_ok.mp hchain).2
  rw [hpath] at hcheck
  obtain ⟨claims, hclaims⟩ := Option.isSome_iff_exists.mp (check_authenticated.mp hcheck)
  obtain ⟨username, role, hin, -⟩ := logged_in hjwt hok h hx hclaims
  exact ⟨username, role, hin⟩

end Allowed

/-- The exchange asked for what the row records, and came with the token of a
user who may do that. -/
def Ordered (cfg : Config τ) (s : App τ) (x : Exchange τ) (row : AuditRow) : Prop :=
  match row.action with
  | .ADMIN_CREDIT => ∃ amount reason, x.request.method = .POST ∧
      x.request.path = ["admin", "accounts", row.account_id.val, "credit"] ∧
      x.request.body.credit = some ⟨some amount, reason⟩ ∧ 0 < amount ∧
      LoggedIn cfg s x "admin" "admin"
  | .POST_TRADE => ∃ body req username role, x.request.method = .POST ∧
      x.request.path = ["trades"] ∧ x.request.body.trade = some body ∧
      validate (some body) = .ok req ∧ row.source_event_id = req.request_id ∧
      row.account_id.val = req.account_id ∧ LoggedIn cfg s x username role

theorem Records.ordered {cfg : Config τ} (hjwt : cfg.jwt.Documented) {ok : App τ → Act τ → Prop}
    (hok : ∀ s a, ok s a → Presented cfg s a) {P : Db → Prop} {s : App τ}
    (h : Reach (step cfg) ok (start P) s) {n : Nat} {t : LedgerTxn} {row : AuditRow}
    (hrec : Records t.call row) (hat : CommittedAt s n t) :
    ∃ x, s.exchanges[n]? = some x ∧ Ordered cfg s x row := by
  obtain ⟨x, k, hx, hk, ht, -⟩ := hat
  have hmem := List.mem_of_getElem? hx
  obtain ⟨id, accountId, t', hchain, -, hfits, ht', hnext⟩ :=
    ((wired_of_reach h).came x hmem).serving hk
  cases ht.symm.trans ht'
  obtain ⟨horders, -⟩ := dispatch_serve hnext
  refine ⟨x, hx, ?_⟩
  generalize t.call = c at hrec horders
  cases horders with
  | trade method path sent valid =>
    obtain ⟨haction, hsource, hstored⟩ := hrec
    rw [path] at hchain
    obtain ⟨username, role, hin⟩ := allowed_authenticated hjwt hok h hmem hchain rfl
    rw [Ordered, haction]
    exact ⟨_, _, username, role, method, path, sent, valid, hsource,
      Varchar.store_of_length hfits hstored, hin⟩
  | credit method path sent positive =>
    obtain ⟨haction, hstored⟩ := hrec
    rw [path] at hchain
    obtain ⟨username, role, hrole, hin⟩ :=
      allowed_role hjwt hok h hmem hchain (accessTo_admin _)
    cases List.mem_singleton.mp hrole
    have huser : username = "admin" := by
      obtain ⟨l, -, token, -, -, hgrants, -⟩ := hin
      obtain ⟨pw, -, huser⟩ := hgrants.password
      exact users_admin huser
    subst huser
    rw [Ordered, haction]
    refine ⟨_, _, method, ?_, sent, positive, hin⟩
    rw [path, Varchar.store_of_length hfits hstored]

/-- The audit log is read at `/audit` alone. -/
theorem Came.audit {cfg : Config τ} {txns : List LedgerTxn} {x : Exchange τ}
    (h : Came cfg txns x) {status : Nat} {rows : List AuditEntryDto} {k : Option Nat}
    (hp : x.progress = .answered k ⟨status, .audit rows⟩) :
    filterChain cfg.jwt x.arrived x.request.bearer ["audit"] = .ok x.principal := by
  obtain ⟨-, hread, -⟩ | ⟨q, db, id, -, hchain, hnext, ha⟩ | ⟨j, t, -, -, hanswer⟩ :=
    h.answered hp
  · cases hread
  · cases q with
    | audit account_id =>
      rw [dispatch_read_audit hnext] at hchain
      exact hchain
    | history account_id status => cases ha
    | balances account_id => cases ha
    | positions account_id => cases ha
  · obtain ⟨-, r, -, ha⟩ | ⟨-, ha⟩ := outcome_cases hanswer
    · have hcontent := congrArg Answer.content ha
      rw [reply_content] at hcontent
      cases r <;> cases hcontent
    · cases ha

/-- **The audit log accounts for everything.** In every run each row has an
exchange of its own, which asked for it with a token that the service had
handed out: to the administrator where cash was credited. Whoever has read the
log had logged in as compliance or as the administrator. -/
theorem audit_trail {cfg : Config τ} (hjwt : cfg.jwt.Documented) {s : App τ}
    (h : Reach (step cfg) (Presented cfg) (start NothingBooked) s) :
    (∃ ns : List Nat, ns.Nodup ∧ List.Forall₂
      (fun row n => ∃ x, s.exchanges[n]? = some x ∧ Ordered cfg s x row)
        s.ledger.db.audit_log ns) ∧
      ∀ x ∈ s.exchanges, ∀ k status rows, x.progress = .answered k ⟨status, .audit rows⟩ →
        ∃ username role, role ∈ ["compliance", "admin"] ∧ LoggedIn cfg s x username role := by
  obtain ⟨ns, htrail⟩ := trail_of_reach
    (fun db w => by cases w <;> simp [Db.apply, Write.audit?]) (one_audit cfg.rules)
    (fun _ hdb => hdb.2.2.1) h
  refine ⟨⟨ns, htrail.nodup, htrail.own.imp fun row n hrow => ?_⟩, fun x hx k status rows hp => ?_⟩
  · obtain ⟨t, hat, hrec⟩ := hrow
    exact hrec.ordered hjwt (fun _ _ => id) h hat
  exact allowed_role hjwt (fun _ _ => id) h hx (((wired_of_reach h).came x hx).audit hp)
    accessTo_audit

theorem audit_trail_of_daily : ∃ s : App Claims, s.ledger.db.audit_log.length = 2 ∧
    ∃ ns : List Nat, ns.Nodup ∧ List.Forall₂
      (fun row n => ∃ x, s.exchanges[n]? = some x ∧ Ordered demo s x row)
        s.ledger.db.audit_log ns := by
  obtain ⟨s, hreach, hlen⟩ := Reach.exists_of_run (step demo) (Presented demo)
    (start NothingBooked) daily (fun s => s.ledger.db.audit_log.length = 2)
    (s := ⟨⟨oneAccount thousand, []⟩, []⟩) ⟨⟨⟨rfl, rfl, rfl, rfl⟩, rfl⟩, rfl⟩ (by decide +kernel)
  exact ⟨s, of_decide_eq_true hlen, (audit_trail plainJwt_documented hreach).1⟩

end TradePulse.Ledger.Web
