import TradePulse.Risk.Passes

/-! # The worker while nothing fails

Redis answers, the file is written, nobody crashes: each call has one outcome,
but for what the clock and the fresh identifiers are. A program is evaluated,
and what each method of the consumer comes to is read off its own equation. -/
namespace TradePulse.Risk
open TradePulse.Core TradePulse.Core.Process

variable {F : Type} [PyFloat F]

/-! ## The outcome of a call -/

/-- What the clock shows and which identifiers are drawn, at the `n`th call. -/
structure Supply (F : Type) where
  text : Nat → String
  time : Nat → F

def RiskCall.calmly (supply : Supply F) : RiskCall F → Nat → RiskChoice F
  | .nowIso, n | .uuid4, n => .text (supply.text n)
  | .monotonic, n => .time (supply.time n)
  | _, _ => .done

omit [PyFloat F] in
theorem stored_done {α : Type} (w : RiskWorld F) (x : Except PyError (α × RiskStore F)) :
    (stored .done w x).isSome := by
  cases x <;> rfl

theorem riskExec_calmly (supply : Supply F) (i : RiskCall F) (n : Nat) (w : RiskWorld F) :
    (riskExec i (i.calmly supply n) w).isSome := by
  cases i with
  | xreadgroup s c =>
    simp only [riskExec]
    split <;> rfl
  | xautoclaim m c =>
    simp only [riskExec]
    split <;> rfl
  | upsertPrice y p => exact stored_done w _
  | appendPrice y p c t => exact stored_done w _
  | appendPv a v c t => exact stored_done w _
  | applyLedgerEvent e => exact stored_done w _
  | saveRiskSnapshot a m t =>
    simp only [riskExec, RiskCall.calmly]
    split <;> rfl
  | _ => rfl

/-- Nothing fails. -/
def calm (supply : Supply F) : Undisturbed (riskExec (F := F)) where
  choice i n := i.calmly supply n
  answers := riskExec_calmly supply

/-- The world after a program that nothing disturbs, and the number of calls
made by then. -/
abbrev calmly {α : Type} (supply : Supply F) (p : RiskM F α) (w : RiskWorld F × Nat) :
    Except PyError α × (RiskWorld F × Nat) := p.eval (calm supply).answer w

section Calls

variable {supply : Supply F} {w : RiskWorld F} {n : Nat}

theorem calmly_perform {i : RiskCall F} {r : Except PyError i.Result} {w' : RiskWorld F}
    (h : riskExec i (i.calmly supply n) w = some (r, w')) :
    calmly supply (Prog.perform i) (w, n) = (r, w', n + 1) := by
  rw [calmly, Prog.eval_perform]
  exact (calm supply).answer_eq h

theorem calmly_nowIso : calmly supply nowIso (w, n) = (.ok (supply.text n), w, n + 1) :=
  calmly_perform rfl

theorem calmly_uuid4 : calmly supply uuid4 (w, n) = (.ok (supply.text n), w, n + 1) :=
  calmly_perform rfl

theorem calmly_reads {α : Type} (f : RiskStore F → Except PyError α) :
    calmly supply (reads f) (w, n) = (f w.store, w, n + 1) := by
  have h : calmly supply (Prog.perform RiskCall.select) (w, n) = (.ok w.store, w, n + 1) :=
    calmly_perform rfl
  rw [calmly, reads, Prog.eval_bind_ok h, Prog.eval_ofExcept]

/-- What every call the program may make keeps. -/
theorem calmly_only {α : Type} {P : RiskCall F → Prop} {A : RiskWorld F → Prop}
    (hA : ∀ i o w r w', P i → A w → riskExec i o w = some (r, w') → A w') {p : RiskM F α}
    (hp : p.Only P) (h : A w) : A (calmly supply p (w, n)).2.1 :=
  hp.eval (A := fun w => A w.1)
    (fun i w hi hw => hA i _ _ _ _ hi hw ((calm supply).exec_answer i w)) h

omit [PyFloat F] in
/-- A writing method of the store that succeeds. -/
theorem stored_ok {α : Type} {x : Except PyError (α × RiskStore F)} {r : α} {s : RiskStore F}
    (h : x = .ok (r, s)) : stored .done w x = some (.ok r, { w with store := s }) := by
  rw [h]
  rfl

omit [PyFloat F] in
theorem stored_error {α : Type} {x : Except PyError (α × RiskStore F)} {e : PyError}
    (h : x = .error e) : stored .done w x = some (.error e, w) := by
  rw [h]
  rfl

end Calls

/-! ## The metrics of an account -/

section Metrics

variable (config : Config F)

/-- What `_build_risk_envelope` computes from the store. -/
def metricsOf (s : RiskStore F) (accountId : Json F) : Except PyError (RiskMetrics F) := do
  let cash ← s.accountCash accountId config.seed_cash
  let positions ← s.resolvedPositions accountId
  let pvReturns ← s.pvReturns accountId
  computeMetrics cash positions config.seed_cash pvReturns

/-- The metrics of the account can be computed, and none is NaN. -/
def Valued (s : RiskStore F) (accountId : Json F) : Prop :=
  ∃ m, metricsOf config s accountId = .ok m ∧ RiskStore.RiskMetrics.bindable m = true

variable {config}

theorem metricsOf_bindText {s : RiskStore F} {a : Json F} {m : RiskMetrics F}
    (h : metricsOf config s a = .ok m) : ∃ t, a.bindText = .ok t := by
  obtain ⟨_, h, -⟩ := except_bind_ok.mp h
  obtain ⟨_, h, -⟩ := except_bind_ok.mp h
  obtain ⟨t, h, -⟩ := except_bind_ok.mp h
  exact ⟨t, h⟩

/-- The envelope holds the metrics of the account as of store `s`. -/
structure EnvelopeOf (config : Config F) (s : RiskStore F) (accountId correlationId : Json F)
    (env : RiskEnvelope F) : Prop where
  account_id : env.data.account_id = accountId
  metrics : metricsOf config s accountId = .ok env.data.metrics
  correlation_id : correlationId.truthy = true → env.correlation_id = correlationId

end Metrics

section Build

variable {config : Config F} (supply : Supply F) {w : RiskWorld F} {n : Nat} {a c : Json F}

theorem calmly_correlationOr (c : Json F) (w : RiskWorld F) (n : Nat) :
    ∃ c' n', calmly supply (correlationOr c) (w, n) = (.ok c', w, n') ∧
      (c.truthy = true → c' = c) := by
  unfold correlationOr
  split
  · exact ⟨c, n, rfl, fun _ => rfl⟩
  · rename_i h
    exact ⟨_, _, Prog.eval_map_ok (calmly_perform rfl), fun hc => absurd hc h⟩

/-- Saving the metrics that could be computed. -/
theorem save_ok {s : RiskStore F} {m : RiskMetrics F} {t : String}
    (ha : ∃ t, a.bindText = .ok t) (hm : RiskStore.RiskMetrics.bindable m = true) :
    ∃ s', s.saveRiskSnapshot a m t = .ok ((), s') ∧
      s' = { s with risk_snapshots := s'.risk_snapshots } := by
  obtain ⟨t, ht⟩ := ha
  simp only [RiskStore.saveRiskSnapshot, ht, bind, Except.bind, hm, if_true]
  split
  · exact ⟨_, rfl, rfl⟩
  · exact ⟨_, rfl, rfl⟩

theorem save_error {s : RiskStore F} {m : RiskMetrics F} {t : String}
    (hm : RiskStore.RiskMetrics.bindable m = false) :
    ∃ e, s.saveRiskSnapshot a m t = .error e := by
  rw [RiskStore.saveRiskSnapshot]
  cases a.bindText with
  | error e => exact ⟨e, rfl⟩
  | ok t =>
    refine ⟨.IntegrityError, ?_⟩
    simp only [bind, Except.bind, hm, Bool.false_eq_true, if_false]
    rfl

/-- The envelope of an account whose metrics are numbers. -/
theorem calmly_build (h : Valued config w.store a) :
    ∃ env snapshots n', calmly supply (buildRiskEnvelope config a c) (w, n) =
        (.ok env, { w with store := { w.store with risk_snapshots := snapshots }
                           unpublished := true }, n') ∧
      EnvelopeOf config w.store a c env := by
  obtain ⟨m, hm, hb⟩ := h
  have ha := metricsOf_bindText hm
  obtain ⟨cash, hcash, hm'⟩ := except_bind_ok.mp hm
  obtain ⟨positions, hpos, hm'⟩ := except_bind_ok.mp hm'
  obtain ⟨pv, hpv, hcompute⟩ := except_bind_ok.mp hm'
  obtain ⟨s', hs', hframe⟩ := save_ok (s := w.store) (t := supply.text (n + 1 + 1 + 1)) ha hb
  have hsave : riskExec (.saveRiskSnapshot a m (supply.text (n + 1 + 1 + 1))) .done w =
      some (.ok (), { w with store := s', unpublished := true }) := by
    simp only [riskExec, hs']
  obtain ⟨c', n', hc, hcc⟩ := calmly_correlationOr supply c
    { w with store := s', unpublished := true } (n + 1 + 1 + 1 + 1 + 1 + 1)
  refine ⟨{ event_id := supply.text (n + 1 + 1 + 1 + 1 + 1), event_type := "RiskComputed"
            schema_version := "1", correlation_id := c', produced_at := supply.text (n + 1 + 1 + 1)
            producer := "risk-engine"
            data := { account_id := a, metrics := m, computed_at := supply.text (n + 1 + 1 + 1) } },
    s'.risk_snapshots, n', ?_, ⟨rfl, hm, hcc⟩⟩
  rw [calmly, buildRiskEnvelope, Prog.eval_bind_ok ((calmly_reads _).trans (by rw [hcash])),
    Prog.eval_bind_ok ((calmly_reads _).trans (by rw [hpos])),
    Prog.eval_bind_ok ((calmly_reads _).trans (by rw [hpv])), hcompute,
    Prog.eval_bind_ok (Prog.eval_ofExcept _ _), Prog.eval_bind_ok calmly_nowIso,
    Prog.eval_bind_ok (calmly_perform hsave), Prog.eval_bind_ok calmly_uuid4,
    Prog.eval_bind_ok hc, ← hframe]
  rfl

/-- One of the steps raises, and nothing is saved. -/
theorem calmly_build_error (h : ¬ Valued config w.store a) :
    ∃ e n', calmly supply (buildRiskEnvelope config a c) (w, n) = (.error e, w, n') := by
  have read : ∀ {α β : Type} (f : RiskStore F → Except PyError α) (k : α → RiskM F β) (n : Nat),
      (∀ x, f w.store = .ok x → ∃ e n', calmly supply (k x) (w, n + 1) = (.error e, w, n')) →
      ∃ e n', calmly supply (reads f >>= k) (w, n) = (.error e, w, n') := by
    intro α β f k n hk
    cases hf : f w.store with
    | error e => exact ⟨e, n + 1, Prog.eval_bind_error ((calmly_reads f).trans (by rw [hf]))⟩
    | ok x =>
      rw [calmly, Prog.eval_bind_ok ((calmly_reads f).trans (by rw [hf]))]
      exact hk x hf
  refine read _ _ _ fun cash hcash => read _ _ _ fun positions hpos => read _ _ _ fun pv hpv => ?_
  cases hm : computeMetrics cash positions config.seed_cash pv with
  | error e => exact ⟨e, _, rfl⟩
  | ok m =>
    have hmetrics : metricsOf config w.store a = .ok m := by
      simp only [metricsOf, hcash, hpos, hpv, hm, bind, Except.bind]
    have hb : RiskStore.RiskMetrics.bindable m = false :=
      Bool.eq_false_iff.mpr fun hb => h ⟨m, hmetrics, hb⟩
    obtain ⟨e, he⟩ := save_error (s := w.store) (a := a) (t := supply.text (n + 1 + 1 + 1)) hb
    refine ⟨e, n + 1 + 1 + 1 + 1 + 1, ?_⟩
    rw [calmly, Prog.eval_bind_ok (Prog.eval_ofExcept _ _), Prog.eval_bind_ok calmly_nowIso]
    refine Prog.eval_bind_error (calmly_perform ?_)
    simp only [riskExec, RiskCall.calmly, he]

end Build

/-! ## Taking up a ledger event -/

/-- The file with one more event in the log. -/
def RiskStore.withRow (s : RiskStore F) (row : AppliedEvent F) : RiskStore F :=
  { s with applied_events := s.applied_events ++ [row] }

/-- No row has the event id; a row without one is always new. -/
def RiskStore.IsNew (s : RiskStore F) (row : AppliedEvent F) : Prop :=
  ¬ (row.event_id.isSome ∧ row.event_id ∈ s.applied_events.map (·.event_id))

section Apply

variable {config : Config F} {supply : Supply F} {w : RiskWorld F} {n : Nat}
  {event : RiskStore.LedgerEvent F} {row : AppliedEvent F}

theorem apply_new {s : RiskStore F} (hrow : event.row = .ok (some row)) (hnew : s.IsNew row) :
    s.applyLedgerEvent event = .ok (true, s.withRow row) := by
  rw [RiskStore.applyLedgerEvent, hrow]
  simp only [bind, Except.bind, RiskStore.insertOrIgnore]
  rw [if_neg hnew]
  rfl

theorem apply_known {s : RiskStore F} (hrow : event.row = .ok (some row)) (hnew : ¬ s.IsNew row) :
    s.applyLedgerEvent event = .ok (false, s) := by
  rw [RiskStore.applyLedgerEvent, hrow]
  simp only [bind, Except.bind, RiskStore.insertOrIgnore]
  rw [if_pos (not_not.mp hnew)]
  rfl

theorem apply_incomplete {s : RiskStore F} (hrow : event.row = .ok none) :
    s.applyLedgerEvent event = .ok (false, s) := by
  rw [RiskStore.applyLedgerEvent, hrow]
  rfl

/-- An event that is ignored or known. -/
theorem calmly_skip (h : w.store.applyLedgerEvent event = .ok (false, w.store)) :
    calmly supply (applyAndPublish config event) (w, n) = (.ok false, w, n + 1) :=
  Prog.eval_bind_ok (calmly_perform (i := .applyLedgerEvent event) (stored_ok h))

theorem calmly_unbound {e : PyError} (h : event.row = .error e) :
    calmly supply (applyAndPublish config event) (w, n) = (.error e, w, n + 1) := by
  refine Prog.eval_bind_error (calmly_perform (i := .applyLedgerEvent event) (stored_error ?_))
  rw [RiskStore.applyLedgerEvent, h]
  rfl

/-- A new event is applied, and the envelope of its account published. -/
theorem calmly_announce (hrow : event.row = .ok (some row)) (hnew : w.store.IsNew row)
    (hv : Valued config (w.store.withRow row) event.account_id) :
    ∃ env snapshots n', calmly supply (applyAndPublish config event) (w, n) =
        (.ok true, { w with
          store := { w.store.withRow row with risk_snapshots := snapshots }
          risk := w.risk ++ [streamFields env]
          unpublished := false }, n') ∧
      EnvelopeOf config (w.store.withRow row) event.account_id event.correlation_id env := by
  obtain ⟨env, snapshots, n', henv, hof⟩ := calmly_build supply (n := n + 1)
    (w := { w with store := w.store.withRow row }) (c := event.correlation_id) hv
  refine ⟨env, snapshots, n' + 1, ?_, hof⟩
  rw [calmly, applyAndPublish,
    Prog.eval_bind_ok (calmly_perform (i := .applyLedgerEvent event)
      (stored_ok (apply_new hrow hnew)))]
  exact (Prog.eval_bind_ok henv).trans (Prog.eval_bind_ok (calmly_perform (i := .xadd _) rfl))

/-- A new event whose account has no metrics stays applied. -/
theorem calmly_unvalued (hrow : event.row = .ok (some row)) (hnew : w.store.IsNew row)
    (hv : ¬ Valued config (w.store.withRow row) event.account_id) :
    ∃ e n', calmly supply (applyAndPublish config event) (w, n) =
      (.error e, { w with store := w.store.withRow row }, n') := by
  obtain ⟨e, n', henv⟩ := calmly_build_error supply (n := n + 1)
    (w := { w with store := w.store.withRow row }) (c := event.correlation_id) hv
  refine ⟨e, n', ?_⟩
  rw [calmly, applyAndPublish,
    Prog.eval_bind_ok (calmly_perform (i := .applyLedgerEvent event)
      (stored_ok (apply_new hrow hnew)))]
  exact Prog.eval_bind_error henv

end Apply

/-! ## Taking up a tick -/

/-- What `process_tick_envelope` makes of an envelope: nothing of a malformed
one, else the symbol, the price and the time to record. -/
def tickOf (envelope : Json F) : Except PyError (Option (Json F × F × Json F)) := do
  let data ← envelope.get "data"
  let data := data.or (.obj [])
  let symbol ← data.get "symbol"
  let price ← data.get "price"
  match symbol.truthy, price with
  | false, _ | _, .null => return none
  | _, _ =>
    let some price ← tickPrice price | return none
    let tickTime ← data.get "tick_time"
    return some (symbol, price, tickTime)

/-- Both price tables. -/
def recordTick (config : Config F) : Option (Json F × F × Json F) → RiskM F Bool
  | none => .ret false
  | some (symbol, price, tickTime) => do
    Prog.perform (RiskCall.upsertPrice symbol price)
    Prog.perform (RiskCall.appendPrice symbol price config.window_size tickTime)
    return true

theorem processTickEnvelope_eq (config : Config F) (envelope : Json F) :
    processTickEnvelope config envelope =
      (Prog.ofExcept (tickOf envelope) >>= recordTick config) := by
  unfold processTickEnvelope tickOf
  cases envelope.get "data" with
  | error e => rfl
  | ok data =>
    simp only [Prog.ofExcept, bind, Except.bind, Prog.bind]
    generalize data.or (.obj []) = data
    cases data with
    | obj kvs =>
      simp only [Json.get, Prog.bind]
      generalize (kvs.lookup "symbol").getD .null = symbol
      generalize (kvs.lookup "price").getD .null = price
      cases symbol.truthy with
      | false => rfl
      | true =>
        cases price with
        | null => rfl
        | _ =>
          dsimp only
          split <;> rename_i hp <;> rw [hp]
          · rename_i p
            cases p <;> rfl
          · rfl
    | _ => rfl

end TradePulse.Risk
