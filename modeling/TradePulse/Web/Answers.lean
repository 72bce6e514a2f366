import TradePulse.Web.Trail

/-! # What an answer says

What a trade is answered is what the tables say of it, then and in every later
state. A request has one first answer, however often it is sent, and one that
is refused or fails leaves nothing behind. -/
namespace TradePulse.Ledger.Web
open TradePulse.Core TradePulse.Core.Prog TradePulse.Core.Runs TradePulse.Core.Transactions

variable {τ : Type}

/-- The identifiers that the service generates are not request ids. -/
def Identified (generated : UUID → Prop) (s : App τ) : Act τ → Prop
  | .request r _ => ∀ body ∈ r.body.trade, ∀ id ∈ body.request_id, ¬ generated id
  | .transaction a => generatedApart generated s.ledger a
  | _ => True

instance (generated : UUID → Prop) [DecidablePred generated] (s : App τ) :
    DecidablePred (Identified generated s)
  | .request r _ => inferInstanceAs (Decidable
      (∀ body ∈ r.body.trade, ∀ id ∈ body.request_id, ¬ generated id))
  | .transaction a => inferInstanceAs (Decidable (generatedApart generated s.ledger a))
  | .proceed _ | .reply _ => .isTrue trivial

theorem validate_request_id {body : TradeRequestBody} {req : TradeRequestDto}
    (h : validate (some body) = .ok req) : body.request_id = some req.request_id := by
  unfold validate at h
  split at h
  · rename_i heq
    cases heq
    split at h
    · cases h
    · split at h
      · cases h
      · cases h
        rfl
  · cases h

section Answers

variable {cfg : Config τ} {generated : UUID → Prop} {P : Db → Prop} {s : App τ}

theorem identified_of_reach (h : Reach (step cfg) (Identified generated) (start P) s)
    {x : Exchange τ} (hx : x ∈ s.exchanges) {body : TradeRequestBody}
    (hbody : x.request.body.trade = some body) {id : UUID} (hid : body.request_id = some id) :
    ¬ generated id := by
  have hall : ∀ y ∈ s.exchanges, ∀ body ∈ y.request.body.trade, ∀ id ∈ body.request_id,
      ¬ generated id := by
    refine h.invariant (I := fun s => ∀ y ∈ s.exchanges, ∀ body ∈ y.request.body.trade,
      ∀ id ∈ body.request_id, ¬ generated id) (fun s hs y hy => ?_)
      fun s a s' ih ha hstep y hy => ?_
    · rw [hs.2] at hy
      exact absurd hy List.not_mem_nil
    · obtain ⟨x, hx, hsame⟩ | ⟨r, w, rfl, rfl⟩ := mem_exchanges (step_inv hstep) hy
      · rw [← hsame.request]
        exact ih x hx
      · have hrequest : (receive cfg r w).request = r := by
          unfold receive
          split <;> rfl
        rw [hrequest]
        exact ha
  exact hall x hx body hbody id hid

/-- The ledger's run keeps the two kinds of identifiers apart. -/
theorem ledger_identified (h : Reach (step cfg) (Identified generated) (start P) s) :
    Reach (ledgerStep cfg.rules) (generatedApart generated) (initial P) s.ledger := by
  refine ledger_of_reach (fun s n x accountId c hs _ get hp => ?_) (fun s a _ ha => ha) h
  have hx := List.mem_of_getElem? get
  obtain ⟨id, -, -, hnext⟩ := ((wired_of_reach hs).came x hx).checking hp
  obtain ⟨horders, -⟩ := dispatch_serve hnext
  cases horders with
  | trade method path sent valid =>
    exact identified_of_reach hs hx sent (validate_request_id valid)
  | credit method path sent positive => trivial

/-! ## One first answer -/

/-- A commit that creates a trade writes its row. -/
theorem finished_created {rules : ComplianceRules} {c : Call} {es : List LedgerEvent} {r : Reply}
    (h : Finished rules c es r) {mdc : Option String} {req : TradeRequestDto} {out : PostOutcome}
    (hc : c = .postTrade mdc req) (hr : r = .trade out) (hcreated : out.created = true) :
    req.request_id ∈ (writesOf es).filterMap requestKey := by
  cases h with
  | duplicate writes =>
    cases hr
    cases hcreated
  | rejected violation rows writes =>
    cases hc
    obtain ⟨_, _, _, ht⟩ := rows.trade_ok
    rw [writes]
    simp [RejectedRows.writes, List.filterMap_cons, requestKey, ht.request_id]
  | posted trace rows writes read compliant =>
    cases hc
    obtain ⟨_, ht⟩ := rows.trade_ok
    rw [writes, rows.project _ fun _ => rfl]
    simp [List.filterMap_cons, requestKey, ht.request_id]
  | credited trace drawn rows writes => cases hc

/-- Of the transactions of one request, one creates. -/
theorem created_once {rules : ComplianceRules} (hP : ∀ db, P db → NothingBooked db)
    {l : LedgerState} (h : Reach (ledgerStep rules) (generatedApart generated) (initial P) l) :
    ∀ (k k' : Nat) (t t' : LedgerTxn) (req req' : TradeRequestDto) (out out' : PostOutcome),
      l.txns[k]? = some t → l.txns[k']? = some t' → Replied t req out → Replied t' req' out' →
      out.created = true → out'.created = true → req.request_id = req'.request_id → k = k' := by
  induction h with
  | init h =>
    rw [h.2]
    intro k k' t t' req req' out out' ht
    cases ht
  | @step l l' a hl ha hstep ih =>
    have hanswers := (answers_hold hP hl).answered
    intro k k' t t' req req' out out' ht ht' hr hr' hc hc' hid
    -- a transaction that is finished in `l'` was there before, or has just committed
    have hold : ∀ (j : Nat) (u : LedgerTxn), l'.txns[j]? = some u → u.status = .committed →
        l.txns[j]? = some u ∨ ∃ c es r, a = .commit j ∧ u = ⟨c, es, .ret r, .committed⟩ ∧
          l.txns[j]? = some ⟨c, es, .ret r, .active⟩ := by
      intro j u hu hdone
      cases step_cases hstep with
      | begin c =>
        obtain hlt | hle := Nat.lt_or_ge j l.txns.length
        · rw [List.getElem?_append_left hlt] at hu
          exact .inl hu
        · rw [List.getElem?_append_right hle] at hu
          rw [List.mem_singleton.mp (List.mem_of_getElem? hu)] at hdone
          cases hdone
      | stmt get exec free =>
        obtain ⟨-, rfl⟩ | ⟨-, hu⟩ := getElem?_put hu
        · cases hdone
        · exact .inl hu
      | @commit n c es r get =>
        obtain ⟨rfl, rfl⟩ | ⟨-, hu⟩ := getElem?_put (s := l) hu
        · exact .inr ⟨c, es, r, rfl, rfl, get⟩
        · exact .inl hu
      | stop get active =>
        obtain ⟨-, rfl⟩ | ⟨-, hu⟩ := getElem?_put hu
        · cases hdone
        · exact .inl hu
    -- a request whose row is there commits no second one
    have hfresh : ∀ (j : Nat) (c : Call) (es : List LedgerEvent) (r : Reply) (q q' : TradeRequestDto)
        (o o' : PostOutcome) (u : LedgerTxn), l.txns[j]? = some ⟨c, es, .ret r, .active⟩ →
        Replied ⟨c, es, .ret r, .committed⟩ q o → o.created = true → u ∈ l.txns →
        Replied u q' o' → q.request_id = q'.request_id → False := by
      intro j c es r q q' o o' u get hrep hcreated hu hrep' hid
      have hmem := List.mem_of_getElem? get
      obtain ⟨⟨mdc, hcall⟩, -, hrest⟩ := hrep
      cases hrest
      have hkey := finished_created (finished (faithful hl _ hmem)) hcall rfl hcreated
      obtain ⟨row, hrow, -⟩ := hanswers u hu q' o' hrep'
      rw [findTradeByRequestId_eq] at hrow
      obtain ⟨tr, htr, -⟩ := Option.map_eq_some_iff.mp hrow
      have hreq : tr.request_id = q'.request_id := by simpa using List.find?_some htr
      exact (requests_reserved hl).fresh _ hmem rfl _ hkey
        ⟨tr, List.mem_of_find?_eq_some htr, hreq.trans hid.symm⟩
    obtain hk | ⟨c, es, r, rfl, rfl, get⟩ := hold k t ht hr.committed
    · obtain hk' | ⟨c, es, r, rfl, rfl, get⟩ := hold k' t' ht' hr'.committed
      · exact ih k k' t t' req req' out out' hk hk' hr hr' hc hc' hid
      · exact (hfresh _ _ _ _ _ _ _ _ _ get hr' hc' (List.mem_of_getElem? hk) hr hid.symm).elim
    · obtain hk' | ⟨c', es', r', ha', -, -⟩ := hold k' t' ht' hr'.committed
      · exact (hfresh _ _ _ _ _ _ _ _ _ get hr hc (List.mem_of_getElem? hk') hr' hid).elim
      · cases ha'
        rfl

/-! ## Answers -/

/-- An exchange that is answered with a trade has committed it. -/
theorem Came.trade {txns : List LedgerTxn} {x : Exchange τ} {k : Option Nat} {a : Answer τ}
    {r : TradeResultDto} (h : Came cfg txns x)
    (hf : ∀ t ∈ txns, Faithful engine (service cfg.rules) t) (hp : x.progress = .answered k a)
    (ha : a.content = .trade r) :
    ∃ j t body req out, k = some j ∧ txns[j]? = some t ∧ x.request.body.trade = some body ∧
      validate (some body) = .ok req ∧ Replied t req out ∧ out.result = r ∧
      a = reply (.trade out) := by
  obtain ⟨-, hlocal, -⟩ | ⟨q, db, id, -, -, -, rfl⟩ | ⟨j, t, rfl, ht, hanswer⟩ := h.answered hp
  · rw [ha] at hlocal
    cases hlocal
  · cases q <;> cases ha
  · obtain ⟨hdone, rep, hrest, rfl⟩ | ⟨-, rfl⟩ := outcome_cases hanswer
    · rw [reply_content] at ha
      cases rep with
      | credit result => cases ha
      | trade out =>
        obtain ⟨id, accountId, t', -, -, -, ht', hnext⟩ := h.serving (k := j) (by
          unfold Exchange.txn
          rw [hp])
        cases ht.symm.trans ht'
        obtain ⟨horders, -⟩ := dispatch_serve hnext
        have hfaithful := hf t (List.mem_of_getElem? ht)
        obtain ⟨c, es, rest, status⟩ := t
        cases hrest
        generalize hcall : c = c' at horders
        cases horders with
        | trade method path sent valid =>
          exact ⟨j, _, _, _, out, rfl, ht, sent, valid, ⟨⟨_, hcall⟩, hdone, rfl⟩,
            Content.trade.inj ha, rfl⟩
        | credit method path sent positive =>
          subst hcall
          cases finished hfaithful
    · cases ha

/-- What a trade is answered is what its row says. -/
def AnswersAgree (s : App τ) : Prop :=
  ∀ x ∈ s.exchanges, ∀ k a r, x.progress = .answered k a → a.content = .trade r →
    ∃ body req row, x.request.body.trade = some body ∧ validate (some body) = .ok req ∧
      s.ledger.db.findTradeByRequestId req.request_id = some row ∧ r.status = row.status ∧
      r.rejection_reason = row.rejection_reason ∧ r.journal_entry_id = row.journal_entry_id ∧
      (a.status = 409 ↔ row.status = .rejected) ∧ (a.status = 200 → r = row)

/-- A request is answered 201 once. -/
def CreatedOnce (s : App τ) : Prop :=
  ∀ (n m : Nat) (x y : Exchange τ) (k k' : Option Nat) (a a' : Answer τ)
    (body body' : TradeRequestBody), s.exchanges[n]? = some x → s.exchanges[m]? = some y →
    x.progress = .answered k a → y.progress = .answered k' a' → a.status = 201 → a'.status = 201 →
    x.request.body.trade = some body → y.request.body.trade = some body' →
    body.request_id = body'.request_id → n = m

/-- What is refused, or fails, has committed nothing. -/
def RefusalsClean (s : App τ) : Prop :=
  ∀ (n : Nat) (x : Exchange τ) (k : Option Nat) (a : Answer τ), s.exchanges[n]? = some x →
    x.progress = .answered k a → 400 ≤ a.status → a.status ≠ 409 → ∀ t, ¬ CommittedAt s n t

theorem reply_trade_status {out : PostOutcome} :
    ((reply (.trade out) : Answer τ).status = 409 ↔ out.result.status = .rejected) ∧
      ((reply (.trade out) : Answer τ).status = 201 → out.created = true) ∧
      ((reply (.trade out) : Answer τ).status = 200 → out.created = false) := by
  simp only [reply]
  split
  · rename_i hrejected
    simp [hrejected]
  · rename_i hposted
    split
    · rename_i hcreated
      simp [hposted, hcreated]
    · rename_i hcreated
      simp [hposted, hcreated]

theorem reply_status (r : Reply) : (reply r : Answer τ).status ∈ [200, 201, 409] := by
  unfold reply
  split
  · split
    · simp
    · split <;> simp
  · simp

/-- A 201 is the reply to a trade. -/
theorem Came.created {txns : List LedgerTxn} {x : Exchange τ} {k : Option Nat} {a : Answer τ}
    (h : Came cfg txns x) (hp : x.progress = .answered k a) (ha : a.status = 201) :
    ∃ r, a.content = .trade r := by
  obtain ⟨-, -, hlocal⟩ | ⟨q, db, id, -, -, -, rfl⟩ | ⟨j, t, -, -, hanswer⟩ := h.answered hp
  · exact absurd ha hlocal
  · cases ha
  · obtain ⟨-, r, -, rfl⟩ | ⟨-, rfl⟩ := outcome_cases hanswer
    · cases r with
      | trade out => exact ⟨out.result, reply_content _⟩
      | credit result => cases ha
    · cases ha

/-- **Answers hold.** In every run: what a trade is answered is what its row
says from then on, one exchange is answered that it created the trade, and one
that is refused or fails has changed nothing. -/
theorem answers_true (h : Reach (step cfg) (Identified generated) (start NothingBooked) s) :
    AnswersAgree s ∧ CreatedOnce s ∧ RefusalsClean s := by
  have hw := wired_of_reach h
  have hl := ledger_identified h
  refine ⟨fun x hx k a r hp ha => ?_, ?_, ?_⟩
  · obtain ⟨j, t, body, req, out, -, ht, hbody, hvalid, hrep, rfl, rfl⟩ :=
      (hw.came x hx).trade (faithful hl) hp ha
    obtain ⟨row, hrow, hagrees⟩ :=
      (answers_hold (fun _ => id) hl).answered t (List.mem_of_getElem? ht) req out hrep
    obtain ⟨hrejected, -, hreplayed⟩ := @reply_trade_status τ out
    exact ⟨body, req, row, hbody, hvalid, hrow, hagrees.status, hagrees.rejection_reason,
      hagrees.journal_entry_id, hagrees.status ▸ hrejected,
      fun hstatus => hagrees.replayed (hreplayed hstatus)⟩
  · intro n m x y k k' a a' body body' hx hy hp hp' ha ha' hbody hbody' hid
    obtain ⟨r, hr⟩ := (hw.came x (List.mem_of_getElem? hx)).created hp ha
    obtain ⟨r', hr'⟩ := (hw.came y (List.mem_of_getElem? hy)).created hp' ha'
    obtain ⟨j, t, b, req, out, rfl, ht, hb, hvalid, hrep, -, rfl⟩ :=
      (hw.came x (List.mem_of_getElem? hx)).trade (faithful hl) hp hr
    obtain ⟨j', t', b', req', out', rfl, ht', hb', hvalid', hrep', -, rfl⟩ :=
      (hw.came y (List.mem_of_getElem? hy)).trade (faithful hl) hp' hr'
    cases hbody.symm.trans hb
    cases hbody'.symm.trans hb'
    have hids : req.request_id = req'.request_id := by
      rw [validate_request_id hvalid, validate_request_id hvalid'] at hid
      exact Option.some.inj hid
    have hj : j = j' := created_once (fun _ => id) hl j j' t t' req req' out out' ht ht' hrep hrep'
      (reply_trade_status.2.1 ha) (reply_trade_status.2.1 ha') hids
    subst hj
    refine hw.single n m x y j hx hy ?_ ?_
    · unfold Exchange.txn
      rw [hp]
    · unfold Exchange.txn
      rw [hp']
  · rintro n x k a hx hp hlow hne t ⟨y, j, hy, hj, ht, hdone⟩
    cases hx.symm.trans hy
    have hk : k = some j := by
      unfold Exchange.txn at hj
      rwa [hp] at hj
    obtain ⟨rfl, -⟩ | ⟨q, db, id, rfl, -⟩ | ⟨j', t', hkj, ht', hanswer⟩ :=
      (hw.came x (List.mem_of_getElem? hx)).answered hp
    · cases hk
    · cases hk
    · cases hk.symm.trans hkj
      cases ht.symm.trans ht'
      obtain ⟨-, r, -, rfl⟩ | ⟨haborted, -⟩ := outcome_cases hanswer
      · have hstatus := reply_status (τ := τ) r
        simp only [List.mem_cons, List.not_mem_nil, or_false] at hstatus
        omega
      · rw [hdone] at haborted
        cases haborted

end Answers

theorem answers_true_of_daily : ∃ s : App Claims, s.ledger.db.trades.length = 1 ∧
    AnswersAgree s ∧ CreatedOnce s ∧ RefusalsClean s := by
  obtain ⟨s, hreach, hlen⟩ := Reach.exists_of_run (step demo) (Identified fromHundred)
    (start NothingBooked) daily (fun s => s.ledger.db.trades.length = 1)
    (s := ⟨⟨oneAccount thousand, []⟩, []⟩) ⟨⟨⟨rfl, rfl, rfl, rfl⟩, rfl⟩, rfl⟩ (by decide +kernel)
  exact ⟨s, of_decide_eq_true hlen, answers_true hreach⟩

end TradePulse.Ledger.Web
