import TradePulse.Web.Trail
import TradePulse.Ledger.Records

/-! # One correlation id

The id that `CorrelationIdFilter` echoes to a request is that of the event
which the request's trade leaves in the outbox. -/
namespace TradePulse.Ledger.Web
open TradePulse.Core TradePulse.Core.Prog TradePulse.Core.Runs TradePulse.Core.Transactions

variable {τ : Type}

theorem not_blank_of_mem {s : String} {c : Char} (hc : c ∈ s.toList) (hn : 0x21 ≤ c.toNat)
    (hlt : c.toNat < 0x1680) : isBlank s = false := by
  unfold isBlank
  rw [List.all_eq_false]
  refine ⟨c, hc, ?_⟩
  simp only [Bool.or_eq_true, Bool.and_eq_true, decide_eq_true_eq, not_or, not_and]
  omega

theorem UUID.toString_not_blank (u : UUID) : isBlank u.toString = false := by
  refine not_blank_of_mem (c := '-') ?_ (by decide) (by decide)
  unfold UUID.toString
  simp

theorem correlate_unusable {header : Option String} {fresh : UUID}
    (h : ∀ id, header = some id → isBlank id = true) :
    correlate header fresh = fresh.toString := by
  unfold correlate
  cases header with
  | none => rfl
  | some id => exact if_pos (h id rfl)

theorem correlate_not_blank (header : Option String) (fresh : UUID) :
    isBlank (correlate header fresh) = false := by
  unfold correlate
  split
  · split
    · exact UUID.toString_not_blank fresh
    · rename_i hblank
      simpa using hblank
  · exact UUID.toString_not_blank fresh

/-- An event is announced under the id. -/
def Announces (id : String) : Statement → Prop
  | .insertOutbox _ _ payload _ => payload.correlation_id = id
  | _ => True

/-- Under a correlation id that is not blank no other is drawn. -/
theorem only_announces (rules : ComplianceRules) {id : String} (hid : isBlank id = false)
    (req : TradeRequestDto) : (service rules (.postTrade (some id) req)).Only (Announces id) := by
  have hcorr : correlationIdOr (some id) = pure id := by
    simp only [correlationIdOr, hid]
    rfl
  refine Only.map ?_
  rw [postTrade_eq]
  refine (only_perform trivial).bind fun existing => ?_
  cases existing with
  | some existing => trivial
  | none =>
    refine (only_perform trivial).bind fun now => (only_perform trivial).bind fun cash => ?_
    cases cash with
    | none => trivial
    | some cash =>
      refine (only_perform trivial).bind fun position => ?_
      unfold comply
      split
      · unfold refuse
        refine (only_perform trivial).bind fun tradeId => (only_perform trivial).bind fun _ =>
          (only_perform trivial).bind fun auditId => (only_perform trivial).bind fun _ => trivial
      · unfold book
        refine (only_perform trivial).bind fun tradeId => (only_perform trivial).bind fun j =>
          (only_perform trivial).bind fun _ => (only_perform trivial).bind fun _ =>
          (only_perform trivial).bind fun _ => (only_perform trivial).bind fun _ => ?_
        unfold settle
        refine (only_perform trivial).bind fun _ => (only_perform trivial).bind fun auditId =>
          (only_perform trivial).bind fun _ => (only_perform trivial).bind fun outboxId => ?_
        unfold buildLedgerUpdatedEnvelope
        rw [hcorr]
        simp only [Prog.bind_assoc, pure_eq, ret_bind]
        refine (only_perform trivial).bind fun eventId => ?_
        refine Only.bind (only_perform ?_) fun _ => trivial
        rfl

/-- The event is that of the call, under the call's correlation id. -/
def Publishes (c : Call) (o : OutboxRow LedgerUpdatedEnvelope) : Prop :=
  match c with
  | .postTrade mdc req => o.payload.data.source_event_id = req.request_id ∧
      ∀ id, mdc = some id → isBlank id = false → o.payload.correlation_id = id
  | .creditAccount .. => False

theorem one_event (rules : ComplianceRules) : OneRow Write.outbox? Publishes rules := by
  intro c es r st hf
  have hfollows := hf.follows
  cases finished hf with
  | duplicate writes =>
    rw [writes]
    exact .inl rfl
  | rejected violation rows writes =>
    rw [writes]
    exact .inl rfl
  | @posted mdc req es v trace rows writes read compliant =>
    rw [writes, rows.project _ fun _ => rfl]
    refine .inr ⟨rows.outbox, rfl, by rw [rows.payload]; rfl, ?_⟩
    rintro id rfl hid
    have honly := (only_announces rules hid req).follows hfollows
    have hmem : ∃ n, (⟨.insertOutbox v.outboxId "LedgerUpdated" (v.envelope req) v.now, (), n⟩ :
        LedgerEvent) ∈ es := by
      cases trace
      exact ⟨_, List.mem_append_right _ (.tail _ (.head _))⟩
    obtain ⟨n, hmem⟩ := hmem
    rw [rows.payload]
    exact honly _ hmem
  | credited trace drawn rows writes =>
    rw [writes, rows.project _ fun _ => rfl]
    exact .inl rfl

/-- The id of an exchange is its header's, or a fresh one. -/
theorem correlated_of_reach {cfg : Config τ} {ok : App τ → Act τ → Prop} {P : Db → Prop}
    {s : App τ} (h : Reach (step cfg) ok (start P) s) {x : Exchange τ} (hx : x ∈ s.exchanges)
    {id : String} (hid : x.correlationId = some id) :
    ∃ fresh, id = correlate x.request.correlationId fresh := by
  have hall : ∀ y ∈ s.exchanges, ∀ id, y.correlationId = some id →
      ∃ fresh, id = correlate y.request.correlationId fresh := by
    refine h.invariant (I := fun s => ∀ y ∈ s.exchanges, ∀ id, y.correlationId = some id →
      ∃ fresh, id = correlate y.request.correlationId fresh) (fun s hs y hy => ?_)
      fun s a s' ih _ hstep y hy id hid => ?_
    · rw [hs.2] at hy
      exact absurd hy List.not_mem_nil
    · obtain ⟨x, hx, hsame⟩ | ⟨r, w, rfl, rfl⟩ := mem_exchanges (step_inv hstep) hy
      · rw [← hsame.request]
        exact ih x hx id (hsame.correlationId.trans hid)
      · unfold receive at hid ⊢
        split at hid
        · cases hid
        · cases hid
          exact ⟨w.uuid, rfl⟩
  exact hall x hx id hid

/-- The event is of a trade that the exchange asked for, under the id that was
echoed to it: its own, if it came with one, and else one that was drawn for it. -/
def Announced (x : Exchange τ) (o : OutboxRow LedgerUpdatedEnvelope) : Prop :=
  x.correlationId = some o.payload.correlation_id ∧
    (∀ id, x.request.correlationId = some id → isBlank id = false →
      o.payload.correlation_id = id) ∧
    ((∀ id, x.request.correlationId = some id → isBlank id = true) →
      ∃ fresh : UUID, o.payload.correlation_id = fresh.toString) ∧
    ∃ body req, x.request.body.trade = some body ∧ validate (some body) = .ok req ∧
      o.payload.data.source_event_id = req.request_id

/-- **One id from the request to the event.** In every run each event of the
outbox has an exchange of its own, and the correlation id that was echoed to it. -/
theorem events_correlated {cfg : Config τ} {s : App τ}
    (h : Reach (step cfg) anyStep (start NothingBooked) s) :
    ∃ ns : List Nat, ns.Nodup ∧ List.Forall₂
      (fun o n => ∃ x, s.exchanges[n]? = some x ∧ Announced x o) s.ledger.db.outbox_events ns := by
  obtain ⟨ns, htrail⟩ := trail_of_reach
    (fun db w => by cases w <;> simp [Db.apply, Write.outbox?]) (one_event cfg.rules)
    (fun _ hdb => hdb.2.2.2) h
  refine ⟨ns, htrail.nodup, htrail.own.imp fun o n hrow => ?_⟩
  obtain ⟨t, ⟨x, k, hx, hk, ht, -⟩, hpub⟩ := hrow
  have hmem := List.mem_of_getElem? hx
  obtain ⟨id, accountId, t', -, hid, -, ht', hnext⟩ := ((wired_of_reach h).came x hmem).serving hk
  cases ht.symm.trans ht'
  obtain ⟨fresh, rfl⟩ := correlated_of_reach h hmem hid
  obtain ⟨horders, hmdc⟩ := dispatch_serve hnext
  refine ⟨x, hx, ?_⟩
  generalize t.call = c at hpub horders hmdc
  cases horders with
  | @trade body req mdc method path sent valid =>
    obtain ⟨hsource, hid'⟩ := hpub
    have heq := hid' _ (hmdc _ _ rfl) (correlate_not_blank _ _)
    refine ⟨by rw [heq, hid], fun header hheader hblank => ?_, fun hnone => ⟨fresh, ?_⟩, _, _,
      sent, valid, hsource⟩
    · rw [heq, hheader]
      simp [correlate, hblank]
    · rw [heq, correlate_unusable hnone]
  | credit method path sent positive => exact hpub.elim

theorem events_correlated_of_daily : ∃ s : App Claims, s.ledger.db.outbox_events.length = 1 ∧
    ∃ ns : List Nat, ns.Nodup ∧ List.Forall₂
      (fun o n => ∃ x, s.exchanges[n]? = some x ∧ Announced x o)
        s.ledger.db.outbox_events ns := by
  obtain ⟨s, hreach, hlen⟩ := Reach.exists_of_run (step demo) anyStep (start NothingBooked) daily
    (fun s => s.ledger.db.outbox_events.length = 1)
    (s := ⟨⟨oneAccount thousand, []⟩, []⟩) ⟨⟨⟨rfl, rfl, rfl, rfl⟩, rfl⟩, rfl⟩ (by decide +kernel)
  exact ⟨s, of_decide_eq_true hlen, events_correlated hreach⟩

end TradePulse.Ledger.Web
