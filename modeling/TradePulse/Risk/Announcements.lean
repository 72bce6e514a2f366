import TradePulse.Risk.Calm
import TradePulse.Risk.Snapshots

/-! # Events applied and events announced

An event is applied, then announced, then its entry acknowledged. The answer of
the first step decides whether the second is made at all, and a redelivered
event is known by then. So each acknowledged event has its envelope on
`risk.updates` as long as nothing comes between the first two steps. -/
namespace TradePulse.Risk
open TradePulse.Core TradePulse.Core.Process TradePulse.Core.Runs
open TradePulse.Core.Prog (only_perform only_ofExcept only_ret)
open TradePulse.Core.StreamLog (after)

variable {F : Type}

/-! ## The property -/

/-- Whether the event applied last is still to be announced, and what was added
to `risk.updates`, with the file as it was then. -/
structure Notes (F : Type) where
  owing : Bool
  sent : List (RiskFields F × RiskStore F)

def Notes.after : (i : RiskCall F) → RiskChoice F → Except PyError i.Result → RiskWorld F →
    Notes F → Notes F
  | .applyLedgerEvent _, _, .ok true, _, n => { n with owing := true }
  | .xadd fields, .done, _, w, n | .xadd fields, .raiseAfter, _, w, n =>
    { owing := false, sent := n.sent ++ [(fields, w.store)] }
  | _, _, _, _, n => n

variable [PyFloat F] {loads : String → Except PyError (Json F)} {config : Config F}

variable (loads config) in
/-- The worker beside these notes. -/
abbrev noted := (worker loads config).noting Notes.after

/-- An envelope for the account of the event, computed from a file that has the
event, under the event's correlation id. -/
structure Announces (config : Config F) (env : Json F) (a : RiskFields F × RiskStore F) :
    Prop where
  event_id : env.eventId ∈ a.2.applied_events.map (·.event_id)
  account_id : a.1.event.data.account_id = env.data.field "account_id"
  metrics : metricsOf config a.2 (env.data.field "account_id") = .ok a.1.event.data.metrics
  correlation_id : a.1.event.correlation_id = env.field "correlation_id"

variable (loads config) in
/-- Each acknowledged entry has an envelope on `risk.updates`. -/
def Announced (w : RiskWorld F × Notes F) : Prop :=
  ∀ id ∈ w.1.ledger.acked, ∃ fields, (id, fields) ∈ after w.1.ledger.log 0 ∧
    ∃ a ∈ w.2.sent, a.1 ∈ w.1.risk ∧ Announces config (envelope loads fields) a

variable (loads) in
/-- A valid stream whose correlation ids are not empty. -/
structure Correlated (log : List Fields) : Prop where
  valid : ValidStream loads log
  correlation_id : ∀ env ∈ envelopes loads log, (env.field "correlation_id").truthy = true

/-- What is owed is not lost in the addition, and nothing is applied to an
account that then has no metrics. -/
def AnnouncingCall (config : Config F) :
    RiskCall F → RiskChoice F → RiskWorld F × Notes F → Prop
  | .xadd _, .raiseBefore, w => w.2.owing = false
  | .applyLedgerEvent e, _, w => ∀ row, e.row = .ok (some row) → w.1.store.IsNew row →
    Valued config (w.1.store.withRow row) e.account_id
  | _, _, _ => True

/-- No crash between an event and its announcement. Other crashes and Redis
errors are not restricted; new entries keep `P` true of the stream. -/
def announcing (config : Config F) (P : List Fields → Prop) :
    Guard (RiskCall F) (WorkerCall F) (RiskChoice F) RiskEnv (RiskWorld F × Notes F) where
  enter _ _ := True
  call := AnnouncingCall config
  crash w := w.2.owing = false
  env e w := growsAs P e w.1

variable (loads) in
/-- A new group on such a stream, a file without events, and nothing noted. -/
def Unannounced (w : RiskWorld F × Notes F) : Prop :=
  fresh loads w.1 ∧ Correlated loads w.1.ledger.log ∧ w.2 = ⟨false, []⟩

/-! ## Rows and what was sent for them -/

section Rows

variable (loads config) in
/-- The row comes from an entry of the stream whose event was announced. -/
def RowTold (log : List Fields) (sent : List (RiskFields F × RiskStore F)) (row : AppliedEvent F) :
    Prop :=
  ∃ fields ∈ log, ∃ event, entryEvent loads fields = .ok (some event) ∧
    event.row = .ok (some row) ∧ ∃ a ∈ sent, row ∈ a.2.applied_events ∧
      EnvelopeOf config a.2 event.account_id event.correlation_id a.1.event

theorem RowTold.grow {log log' : List Fields} {sent sent' : List (RiskFields F × RiskStore F)}
    {row : AppliedEvent F} (h : RowTold loads config log sent row) (hlog : log <+: log')
    (hsent : sent <+: sent') : RowTold loads config log' sent' row := by
  obtain ⟨fields, hf, event, hev, hrow, a, ha, hin, hof⟩ := h
  exact ⟨fields, hlog.subset hf, event, hev, hrow, a, hsent.subset ha, hin, hof⟩

variable (loads config) in
/-- The event of each acknowledged entry is in a row that is announced. -/
def AckedTold (g : ConsumerGroup Fields) (sent : List (RiskFields F × RiskStore F)) : Prop :=
  ∀ id ∈ g.acked, ∃ fields, (id, fields) ∈ after g.log 0 ∧ ∃ row : AppliedEvent F,
    row.event_id = (envelope loads fields).eventId ∧ RowTold loads config g.log sent row

variable (loads config) in
/-- What holds throughout, with entries `es` of the stream in hand. -/
structure NewsKept (es : List (Nat × Fields)) (w : RiskWorld F × Notes F) : Prop where
  stream : Correlated loads w.1.ledger.log
  entries : es ⊆ after w.1.ledger.log 0
  acked : AckedTold loads config w.1.ledger w.2.sent
  sent : ∀ a ∈ w.2.sent, a.1 ∈ w.1.risk

variable (loads config) in
/-- Every row is announced. -/
structure Told (es : List (Nat × Fields)) (w : RiskWorld F × Notes F) : Prop where
  kept : NewsKept loads config es w
  owing : w.2.owing = false
  rows : ∀ row ∈ w.1.store.applied_events, RowTold loads config w.1.ledger.log w.2.sent row

variable (loads config) in
/-- Every row but `row` is announced, and the file is `t`. -/
structure Owing (row : AppliedEvent F) (t : RiskStore F) (es : List (Nat × Fields))
    (w : RiskWorld F × Notes F) : Prop where
  kept : NewsKept loads config es w
  owing : w.2.owing = true
  store : w.1.store = t
  rows : ∀ r ∈ t.applied_events, r = row ∨ RowTold loads config w.1.ledger.log w.2.sent r

variable (loads config) in
/-- What holds wherever the worker is cut off. -/
structure CutThere (w : RiskWorld F × Notes F) : Prop where
  kept : NewsKept loads config [] w
  told : w.2.owing = false → Told loads config [] w

theorem AckedTold.grow {g g' : ConsumerGroup Fields}
    {sent sent' : List (RiskFields F × RiskStore F)} (h : AckedTold loads config g sent)
    (hlog : g.log <+: g'.log) (hacked : g'.acked = g.acked) (hsent : sent <+: sent') :
    AckedTold loads config g' sent' := by
  intro id hid
  obtain ⟨fields, hmem, row, hrow, htold⟩ := h id (hacked ▸ hid)
  exact ⟨fields, (StreamLog.after_mono hlog (Nat.zero_le _)).subset hmem, row, hrow,
    htold.grow hlog hsent⟩

theorem NewsKept.drop {es : List (Nat × Fields)} {w : RiskWorld F × Notes F}
    (h : NewsKept loads config es w) : NewsKept loads config [] w :=
  { h with entries := List.nil_subset _ }

theorem Told.drop {es : List (Nat × Fields)} {w : RiskWorld F × Notes F}
    (h : Told loads config es w) : Told loads config [] w := { h with kept := h.kept.drop }

theorem Told.cutThere {es : List (Nat × Fields)} {w : RiskWorld F × Notes F}
    (h : Told loads config es w) : CutThere loads config w := ⟨h.kept.drop, fun _ => h.drop⟩

theorem Owing.cutThere {row : AppliedEvent F} {t : RiskStore F} {es : List (Nat × Fields)}
    {w : RiskWorld F × Notes F} (h : Owing loads config row t es w) : CutThere loads config w := by
  refine ⟨h.kept.drop, fun hw => ?_⟩
  rw [h.owing] at hw
  cases hw

/-- One more envelope on `risk.updates`. -/
theorem NewsKept.publish {es : List (Nat × Fields)} {w : RiskWorld F × Notes F}
    (h : NewsKept loads config es w) (fields : RiskFields F) : NewsKept loads config es
      (w.1.publish fields, ⟨false, w.2.sent ++ [(fields, w.1.store)]⟩) where
  stream := h.stream
  entries := h.entries
  acked := h.acked.grow (List.prefix_refl _) rfl (List.prefix_append ..)
  sent a ha := by
    rcases List.mem_append.mp ha with ha | ha
    · exact List.mem_append_left _ (h.sent a ha)
    · rw [List.mem_singleton.mp ha]
      exact List.mem_append_right _ (List.mem_singleton_self _)

/-- The event is announced. -/
theorem Owing.publish {row : AppliedEvent F} {t : RiskStore F} {es : List (Nat × Fields)}
    {w : RiskWorld F × Notes F} {env : RiskEnvelope F} {e : Nat × Fields}
    {event : RiskStore.LedgerEvent F} (h : Owing loads config row t es w) (he : e ∈ es)
    (hev : entryEvent loads e.2 = .ok (some event)) (hrow : event.row = .ok (some row))
    (hin : row ∈ t.applied_events)
    (hof : EnvelopeOf config t event.account_id event.correlation_id env) :
    Told loads config es (w.1.publish (streamFields env),
      ⟨false, w.2.sent ++ [(streamFields env, w.1.store)]⟩) := by
  refine ⟨h.kept.publish _, rfl, fun r hr => ?_⟩
  have hr : r ∈ t.applied_events := h.store ▸ hr
  rcases h.rows r hr with rfl | hr
  · have hmem := List.mem_of_getElem? (StreamLog.mem_after.mp (h.kept.entries he)).2
    refine ⟨e.2, hmem, event, hev, hrow, _,
      List.mem_append_right _ (List.mem_singleton_self _), ?_⟩
    rw [h.store]
    exact ⟨hin, hof⟩
  · exact hr.grow (List.prefix_refl _) (List.prefix_append ..)

theorem Told.publish {es : List (Nat × Fields)} {w : RiskWorld F × Notes F}
    (h : Told loads config es w) (fields : RiskFields F) : Told loads config es
      (w.1.publish fields, ⟨false, w.2.sent ++ [(fields, w.1.store)]⟩) where
  kept := h.kept.publish fields
  owing := rfl
  rows row hrow := (h.rows row hrow).grow (List.prefix_refl _) (List.prefix_append ..)

end Rows

/-! ## Calls that tell nothing -/

section Frames

/-- The stream and what is acknowledged of it, the event log and the published
envelopes. -/
structure SameNews (w w' : RiskWorld F) : Prop where
  log : w.ledger.log <+: w'.ledger.log
  acked : w'.ledger.acked = w.ledger.acked
  applied_events : w'.store.applied_events = w.store.applied_events
  risk : w'.risk = w.risk

theorem NewsKept.same {es : List (Nat × Fields)} {w w' : RiskWorld F × Notes F}
    (h : NewsKept loads config es w) (hw : SameNews w.1 w'.1) (hn : w'.2 = w.2)
    (hstream : Correlated loads w'.1.ledger.log) : NewsKept loads config es w' where
  stream := hstream
  entries := List.Subset.trans h.entries (StreamLog.after_mono hw.log (Nat.zero_le _)).subset
  acked := hn ▸ h.acked.grow hw.log hw.acked (List.prefix_refl _)
  sent a ha := by
    rw [hn] at ha
    rw [hw.risk]
    exact h.sent a ha

theorem Told.same {es : List (Nat × Fields)} {w w' : RiskWorld F × Notes F}
    (h : Told loads config es w) (hw : SameNews w.1 w'.1) (hn : w'.2 = w.2)
    (hstream : Correlated loads w'.1.ledger.log) : Told loads config es w' where
  kept := h.kept.same hw hn hstream
  owing := hn ▸ h.owing
  rows row hrow := by
    rw [hw.applied_events] at hrow
    rw [hn]
    exact (h.rows row hrow).grow hw.log (List.prefix_refl _)

theorem Owing.same {row : AppliedEvent F} {t : RiskStore F} {es : List (Nat × Fields)}
    {w w' : RiskWorld F × Notes F} (h : Owing loads config row t es w)
    (hw : SameNews w.1 w'.1) (hstore : w'.1.store = w.1.store) (hn : w'.2 = w.2)
    (hstream : Correlated loads w'.1.ledger.log) : Owing loads config row t es w' where
  kept := h.kept.same hw hn hstream
  owing := hn ▸ h.owing
  store := hstore.trans h.store
  rows r hr := (h.rows r hr).imp_right fun hr => hn ▸ hr.grow hw.log (List.prefix_refl _)

/-- What the environment does. -/
theorem news_env {e : RiskEnv} {w : RiskWorld F} (hg : growsAs (Correlated loads) e w)
    (h : Correlated loads w.ledger.log) :
    SameNews w (riskEnv e w) ∧ (riskEnv e w).store = w.store ∧
      Correlated loads (riskEnv e w).ledger.log := by
  obtain ⟨hlog, hacked, hstream, hstore⟩ := ledger_env hg h
  refine ⟨⟨hlog, hacked, by rw [hstore], ?_⟩, hstore, hstream⟩
  cases e with
  | setId s n => cases s <;> rfl
  | _ => rfl

/-- The calls that apply an event, announce one or acknowledge one. -/
def RiskCall.onNews : RiskCall F → Bool
  | .applyLedgerEvent _ | .xadd _ | .xack .ledger _ => true
  | _ => false

omit [PyFloat F] in
theorem SameNews.wrote {α : Type} {w : RiskWorld F} {x : Except PyError (α × RiskStore F)}
    (h : ∀ r s, x = .ok (r, s) → s.applied_events = w.store.applied_events) :
    SameNews w (w.wrote x) where
  log := (ledger_wrote w x).symm ▸ List.prefix_refl _
  acked := by rw [ledger_wrote]
  applied_events := wrote_frame _ h
  risk := risk_wrote ..

theorem news_frame {i : RiskCall F} (hi : i.onNews = false) {o : RiskChoice F}
    {w w' : RiskWorld F} {r : Except PyError i.Result} (h : riskExec i o w = some (r, w')) :
    SameNews w w' ∧ w'.ledger.log = w.ledger.log := by
  rcases exec_effect h with rfl | rfl
  · exact ⟨⟨List.prefix_refl _, rfl, rfl, rfl⟩, rfl⟩
  cases i with
  | xreadgroup s n => cases s <;> exact ⟨⟨List.prefix_refl _, rfl, rfl, rfl⟩, rfl⟩
  | xack s id =>
    cases s with
    | ledger => cases hi
    | ticks => exact ⟨⟨List.prefix_refl _, rfl, rfl, rfl⟩, rfl⟩
  | xadd fields => cases hi
  | applyLedgerEvent e => cases hi
  | upsertPrice y p =>
    exact ⟨.wrote fun _ _ h => by rw [RiskStore.upsertPrice_only h],
      by rw [RiskCall.effect, ledger_wrote]⟩
  | appendPrice y p n t =>
    exact ⟨.wrote fun _ _ h => by rw [RiskStore.appendPrice_only h],
      by rw [RiskCall.effect, ledger_wrote]⟩
  | appendPv a v n t =>
    exact ⟨.wrote fun _ _ h => by rw [RiskStore.appendPv_only h],
      by rw [RiskCall.effect, ledger_wrote]⟩
  | saveRiskSnapshot a m t =>
    have hw : SameNews w (w.wrote (w.store.saveRiskSnapshot a m t)) :=
      .wrote fun _ _ h => by rw [RiskStore.saveRiskSnapshot_only h]
    exact ⟨⟨hw.log, hw.acked, hw.applied_events, hw.risk⟩, by rw [RiskCall.effect, ledger_wrote]⟩
  | _ => exact ⟨⟨List.prefix_refl _, rfl, rfl, rfl⟩, rfl⟩

omit [PyFloat F] in
theorem after_quiet {i : RiskCall F} (hi : i.onNews = false) (o : RiskChoice F)
    (r : Except PyError i.Result) (w : RiskWorld F) (n : Notes F) : Notes.after i o r w n = n := by
  cases i with
  | applyLedgerEvent e => cases hi
  | xadd fields => cases hi
  | _ => rfl

variable (loads config) in
theorem told_stable (es : List (Nat × Fields)) :
    Stable (noted loads config) (announcing config (Correlated loads)) (Told loads config es) := by
  intro w e w' h hg hx
  obtain ⟨hw, hn⟩ := env_noting.mp hx
  obtain ⟨w', n⟩ := w'
  obtain rfl : riskEnv e w.1 = w' := Option.some.inj hw
  obtain ⟨hsame, -, hstream⟩ := news_env hg h.kept.stream
  exact h.same hsame hn hstream

variable (loads config) in
theorem owing_stable (row : AppliedEvent F) (t : RiskStore F) (es : List (Nat × Fields)) :
    Stable (noted loads config) (announcing config (Correlated loads))
      (Owing loads config row t es) := by
  intro w e w' h hg hx
  obtain ⟨hw, hn⟩ := env_noting.mp hx
  obtain ⟨w', n⟩ := w'
  obtain rfl : riskEnv e w.1 = w' := Option.some.inj hw
  obtain ⟨hsame, hstore, hstream⟩ := news_env hg h.kept.stream
  exact h.same hsame hstore hn hstream

variable (loads config) in
/-- The event of an entry in hand is applied and announced. -/
def Done (fields : Fields) (es : List (Nat × Fields)) (w : RiskWorld F × Notes F) : Prop :=
  Told loads config es w ∧
    (envelope loads fields).eventId ∈ w.1.store.applied_events.map (·.event_id)

variable (loads config) in
theorem done_stable (fields : Fields) (es : List (Nat × Fields)) :
    Stable (noted loads config) (announcing config (Correlated loads))
      (Done loads config fields es) := by
  intro w e w' h hg hx
  refine ⟨told_stable loads config es w e w' h.1 hg hx, ?_⟩
  obtain ⟨hw, hn⟩ := env_noting.mp hx
  obtain ⟨w', n⟩ := w'
  obtain rfl : riskEnv e w.1 = w' := Option.some.inj hw
  rw [(news_env hg h.1.kept.stream).1.applied_events]
  exact h.2

/-- Its acknowledgement. -/
theorem Done.ack {id : Nat} {fields : Fields} {es : List (Nat × Fields)}
    {w : RiskWorld F × Notes F} (h : Done loads config fields es w) (he : (id, fields) ∈ es) :
    Told loads config es ({ w.1 with ledger := w.1.ledger.ack id }, w.2) where
  kept :=
    { stream := h.1.kept.stream
      entries := h.1.kept.entries
      acked := fun m hm => by
        rcases List.mem_append.mp hm with hm | hm
        · exact h.1.kept.acked m hm
        · obtain ⟨row, hmem, hrow⟩ := List.mem_map.mp h.2
          obtain rfl := List.mem_singleton.mp hm
          exact ⟨fields, h.1.kept.entries he, row, hrow, h.1.rows row hmem⟩
      sent := h.1.kept.sent }
  owing := h.1.owing
  rows := h.1.rows

end Frames

/-! ## Programs that leave no row unannounced -/

section Programs

variable {β γ : Type} {es : List (Nat × Fields)}

variable (loads config) in
/-- `Safe` for the worker and its notes. -/
abbrev NewsSafe (Q : Except PyError β → RiskWorld F × Notes F → Prop) (p : RiskM F β)
    (w : RiskWorld F × Notes F) : Prop :=
  Safe (noted loads config) (announcing config (Correlated loads)) (CutThere loads config) Q p w

variable (loads config) in
/-- Every row is announced when the program ends. -/
abbrev Tells (es : List (Nat × Fields)) (p : RiskM F β) : Prop :=
  ∀ w, Told loads config es w → NewsSafe loads config (fun _ => Told loads config es) p w

theorem Tells.bind {p : RiskM F γ} {f : γ → RiskM F β} (hp : Tells loads config es p)
    (hf : ∀ c, Tells loads config es (f c)) : Tells loads config es (p >>= f) := by
  intro w h
  refine Safe.bind ((hp w h).mono fun r w hw => ?_)
  cases r with
  | ok c => exact hf c w hw
  | error e => exact hw

/-- An addition to `risk.updates`: it is lost, or noted. -/
theorem exec_xadd {fields : RiskFields F} {o : RiskChoice F} {w w' : RiskWorld F × Notes F}
    {r : Except PyError Unit} (h : (noted loads config).exec (.xadd fields) o w = some (r, w')) :
    o = .raiseBefore ∧ (∃ e, r = .error e) ∧ w' = w ∨
      w' = (w.1.publish fields, ⟨false, w.2.sent ++ [(fields, w.1.store)]⟩) := by
  obtain ⟨hx, hn⟩ := exec_noting.mp h
  obtain ⟨w', n⟩ := w'
  cases o with
  | done =>
    cases hx
    exact .inr (congrArg _ hn)
  | raiseBefore =>
    cases hx
    exact .inl ⟨rfl, ⟨_, rfl⟩, congrArg _ hn⟩
  | raiseAfter =>
    cases hx
    exact .inr (congrArg _ hn)
  | _ => cases hx

theorem Told.quiet {i : RiskCall F} (hi : i.onNews = false) {o : RiskChoice F}
    {w w' : RiskWorld F × Notes F} {r : Except PyError i.Result} (h : Told loads config es w)
    (hx : (noted loads config).exec i o w = some (r, w')) : Told loads config es w' := by
  obtain ⟨hx, hn⟩ := exec_noting.mp hx
  obtain ⟨hsame, hlog⟩ := news_frame hi hx
  exact h.same hsame (hn.trans (after_quiet hi ..)) (hlog ▸ h.kept.stream)

/-- The calls that apply an event or acknowledge one. -/
def RiskCall.onEntry : RiskCall F → Bool
  | .applyLedgerEvent _ | .xack .ledger _ => true
  | _ => false

/-- A program that takes up no entry. -/
theorem Tells.only {p : RiskM F β} (hp : p.Only fun i => i.onEntry = false) :
    Tells loads config es p := by
  intro w h
  refine Safe.only (told_stable loads config es) (fun _ h => h.cutThere) ?_ (fun _ _ h => h) hp h
  intro i o w r w' hi hw _ hx
  cases i with
  | applyLedgerEvent e => cases hi
  | xack s id =>
    cases s with
    | ledger => cases hi
    | ticks => exact hw.quiet rfl hx
  | xreadgroup s n => cases s <;> exact hw.quiet rfl hx
  | xadd fields =>
    obtain ⟨-, -, rfl⟩ | rfl := exec_xadd hx
    · exact hw
    · exact hw.publish fields
  | _ => exact hw.quiet rfl hx

end Programs

/-! ## Between an event and its announcement -/

section Between

variable {β γ : Type} {es : List (Nat × Fields)} {row : AppliedEvent F} {t : RiskStore F}
  {w : RiskWorld F × Notes F} {Q : Except PyError β → RiskWorld F × Notes F → Prop}

/-- The calls that only ask. -/
def RiskCall.asks : RiskCall F → Bool
  | .select | .nowIso | .uuid4 => true
  | _ => false

theorem exec_asks {i : RiskCall F} (hi : i.asks = true) {o : RiskChoice F} {w w' : RiskWorld F}
    {r : Except PyError i.Result} (h : riskExec i o w = some (r, w')) :
    w' = w ∧ ∃ x, r = .ok x := by
  cases i with
  | select | nowIso | uuid4 =>
    cases o <;> cases h
    exact ⟨rfl, _, rfl⟩
  | _ => cases hi

/-- A call that only asks, and what follows. -/
theorem NewsSafe.ask {i : RiskCall F} (hi : i.asks = true) {f : i.Result → RiskM F β}
    (hf : ∀ o x w, Owing loads config row t es w → riskExec i o w.1 = some (.ok x, w.1) →
      NewsSafe loads config Q (f x) w) (h : Owing loads config row t es w) :
    NewsSafe loads config Q (Prog.perform i >>= f) w := by
  have hquiet : i.onNews = false := by
    cases i with
    | select | nowIso | uuid4 => rfl
    | _ => cases hi
  refine Safe.perform (owing_stable loads config row t es) (fun _ h => h.cutThere) ?_ ?_ h
  · intro w o x w' hw _ hx
    obtain ⟨hx, hn⟩ := exec_noting.mp hx
    obtain ⟨hsame, -⟩ := exec_asks hi hx
    obtain rfl : w' = w := Prod.ext hsame (hn.trans (after_quiet hquiet ..))
    exact hf o x w' hw hx
  · intro w o e w' _ _ hx
    obtain ⟨-, x, hr⟩ := exec_asks hi (exec_noting.mp hx).1
    cases hr

theorem NewsSafe.reads {f : RiskStore F → Except PyError γ} {x : γ} (hx : f t = .ok x)
    {k : γ → RiskM F β}
    (hk : ∀ w, Owing loads config row t es w → NewsSafe loads config Q (k x) w)
    (h : Owing loads config row t es w) : NewsSafe loads config Q (reads f >>= k) w := by
  rw [Risk.reads, Prog.bind_assoc]
  refine NewsSafe.ask rfl (fun o s w hw hs => ?_) h
  obtain rfl : s = t := by
    cases o <;> cases hs
    exact hw.store
  rw [hx]
  exact hk w hw

/-- The snapshot of an account that has metrics. -/
theorem NewsSafe.save {a : Json F} {m : RiskMetrics F} {computedAt : String}
    (ha : ∃ y, a.bindText = .ok y) (hm : RiskStore.RiskMetrics.bindable m = true)
    {f : Unit → RiskM F β}
    (hf : ∀ t' w, t' = { t with risk_snapshots := t'.risk_snapshots } →
      Owing loads config row t' es w → NewsSafe loads config Q (f ()) w)
    (h : Owing loads config row t es w) :
    NewsSafe loads config Q (Prog.perform (RiskCall.saveRiskSnapshot a m computedAt) >>= f) w := by
  obtain ⟨t', ht', hframe⟩ := save_ok (s := t) (t := computedAt) ha hm
  have hexec : ∀ (o : RiskChoice F) (r : Except PyError Unit) (w w' : RiskWorld F × Notes F),
      Owing loads config row t es w →
      (noted loads config).exec (.saveRiskSnapshot a m computedAt) o w = some (r, w') →
      r = .ok () ∧ Owing loads config row t' es w' := by
    intro o r w w' hw hx
    obtain ⟨hx, hn⟩ := exec_noting.mp hx
    cases o with
    | done =>
      simp only [worker, riskExec, hw.store, ht'] at hx
      obtain ⟨w', n⟩ := w'
      cases hx
      obtain rfl : n = w.2 := hn
      have hkept := hw.kept
      exact ⟨rfl, ⟨⟨hkept.stream, hkept.entries, hkept.acked, hkept.sent⟩, hw.owing, rfl,
        fun r hr => hw.rows r (by rwa [hframe] at hr)⟩⟩
    | _ => cases hx
  refine Safe.perform (owing_stable loads config row t es) (fun _ h => h.cutThere) ?_ ?_ h
  · intro w o r w' hw _ hx
    exact hf t' w' hframe (hexec o _ w w' hw hx).2
  · intro w o e w' hw _ hx
    cases (hexec o _ w w' hw hx).1

variable (config) in
/-- The file is as it was, but for the snapshots, and the envelope is of it. -/
def BuiltFrom (t : RiskStore F) (a c : Json F) (t' : RiskStore F) (env : RiskEnvelope F) : Prop :=
  t' = { t with risk_snapshots := t'.risk_snapshots } ∧ EnvelopeOf config t' a c env

/-- An account with metrics gets its envelope. -/
theorem NewsSafe.build {a c : Json F} (hv : Valued config t a) {k : RiskEnvelope F → RiskM F β}
    (hk : ∀ env t' w, BuiltFrom config t a c t' env → Owing loads config row t' es w →
      NewsSafe loads config Q (k env) w) (h : Owing loads config row t es w) :
    NewsSafe loads config Q (buildRiskEnvelope config a c >>= k) w := by
  obtain ⟨m, hm, hb⟩ := hv
  have ha := metricsOf_bindText hm
  obtain ⟨cash, hcash, hm'⟩ := except_bind_ok.mp hm
  obtain ⟨positions, hpos, hm'⟩ := except_bind_ok.mp hm'
  obtain ⟨pv, hpv, hcompute⟩ := except_bind_ok.mp hm'
  simp only [buildRiskEnvelope, Prog.bind_assoc]
  refine NewsSafe.reads hcash (fun w h => ?_) h
  refine NewsSafe.reads hpos (fun w h => ?_) h
  refine NewsSafe.reads hpv (fun w h => ?_) h
  rw [hcompute]
  refine NewsSafe.ask rfl (fun _ computedAt w h _ => ?_) h
  refine NewsSafe.save ha hb (fun t' w ht' h => ?_) h
  refine NewsSafe.ask rfl (fun _ eventId w h _ => ?_) h
  have hbuilt : ∀ correlationId, (c.truthy = true → correlationId = c) →
      BuiltFrom config t a c t' { event_id := eventId, event_type := "RiskComputed"
                                  schema_version := "1", correlation_id := correlationId
                                  produced_at := computedAt, producer := "risk-engine"
                                  data := { account_id := a, metrics := m
                                            computed_at := computedAt } } :=
    fun _ hc => ⟨ht', rfl, by rw [ht']; exact hm, hc⟩
  unfold correlationOr
  split
  · exact hk _ t' w (hbuilt c fun _ => rfl) h
  · rename_i hc
    rw [Prog.map_bind]
    exact NewsSafe.ask rfl (fun _ s w h _ => hk _ t' w (hbuilt _ fun hc' => absurd hc' hc) h) h

/-- What comes of an event. -/
theorem applyLedgerEvent_cases {s s' : RiskStore F} {event : RiskStore.LedgerEvent F} {b : Bool}
    (h : s.applyLedgerEvent event = .ok (b, s')) : ∃ r, event.row = .ok r ∧
      (b = false ∧ s' = s ∧ (∀ row, r = some row → ¬ s.IsNew row) ∨
        b = true ∧ ∃ row, r = some row ∧ s.IsNew row ∧ s' = s.withRow row) := by
  obtain ⟨r, hrow, -⟩ := except_bind_ok.mp h
  refine ⟨r, hrow, ?_⟩
  cases r with
  | none =>
    rw [apply_incomplete hrow] at h
    cases h
    exact .inl ⟨rfl, rfl, nofun⟩
  | some row =>
    by_cases hnew : s.IsNew row
    · rw [apply_new hrow hnew] at h
      cases h
      exact .inr ⟨rfl, row, rfl, hnew, rfl⟩
    · rw [apply_known hrow hnew] at h
      cases h
      refine .inl ⟨rfl, rfl, fun _ hr => ?_⟩
      cases hr
      exact hnew

/-- One event: it is known, or applied and announced. -/
theorem applyAndPublish_done {e : Nat × Fields} (he : e ∈ es) {event : RiskStore.LedgerEvent F}
    (hev : entryEvent loads e.2 = .ok (some event)) (h : Told loads config es w) :
    NewsSafe loads config (fun r w => match r with
      | .ok _ => Done loads config e.2 es w
      | .error _ => Told loads config es w) (applyAndPublish config event) w := by
  refine Safe.perform (told_stable loads config es) (fun _ h => h.cutThere) ?_ ?_ h
  · intro w o newlyApplied w' hw hg hx
    obtain ⟨hx, hn⟩ := exec_noting.mp hx
    obtain ⟨_, store, happly, hr, hw'⟩ | ⟨_, _, hr, _⟩ := stored_some hx
    swap
    · cases hr
    cases hr
    have hmem := List.mem_of_getElem? (StreamLog.mem_after.mp (hw.kept.entries he)).2
    have hvalid : SchemaValid (envelope loads e.2) :=
      hw.kept.stream.valid.valid _ (List.mem_map_of_mem hmem)
    obtain ⟨w', n⟩ := w'
    obtain rfl : w' = { w.1 with store } := hw'
    obtain ⟨r, hrow, hcases⟩ := applyLedgerEvent_cases happly
    obtain ⟨row, rfl, hof⟩ := hvalid.row_of_event hev hrow
    rcases hcases with ⟨rfl, rfl, hknown⟩ | ⟨rfl, _, hr, hnew, rfl⟩
    · obtain rfl : n = w.2 := hn
      have hin : row.event_id ∈ w.1.store.applied_events.map (·.event_id) :=
        (not_not.mp (hknown row rfl)).2
      exact Safe.ret (done_stable loads config e.2 es) (fun _ h => h.1.cutThere) (fun _ h => h)
        ⟨hw, hof.event_id ▸ hin⟩
    · cases hr
      obtain rfl : n = { w.2 with owing := true } := hn
      have howing : Owing loads config row (w.1.store.withRow row) es
          ({ w.1 with store := w.1.store.withRow row }, { w.2 with owing := true }) := by
        have hkept := hw.kept
        refine ⟨⟨hkept.stream, hkept.entries, hkept.acked, hkept.sent⟩, rfl, rfl, fun r hr => ?_⟩
        rcases List.mem_append.mp hr with hr | hr
        · exact .inr (hw.rows r hr)
        · exact .inl (List.mem_singleton.mp hr)
      refine NewsSafe.build (hg row hrow hnew) (fun env t' w hbuilt h => ?_) howing
      have hin : row ∈ t'.applied_events := by
        rw [hbuilt.1]
        exact List.mem_append_right _ (List.mem_singleton_self row)
      refine Safe.perform (owing_stable loads config row t' es) (fun _ h => h.cutThere) ?_ ?_ h
      · intro w o r w' hw _ hx
        obtain ⟨-, ⟨err, hr⟩, -⟩ | rfl := exec_xadd hx
        · cases hr
        · refine Safe.ret (done_stable loads config e.2 es) (fun _ h => h.1.cutThere) (fun _ h => h)
            ⟨hw.publish he hev hrow hin hbuilt.2, ?_⟩
          rw [← hof.event_id]
          exact List.mem_map_of_mem (hw.store.symm ▸ hin)
      · intro w o err w' hw hg hx
        obtain ⟨rfl, -, -⟩ | rfl := exec_xadd hx
        · cases hw.owing.symm.trans hg
        · exact Safe.raise (told_stable loads config es) (fun _ h => h.cutThere) (fun _ h => h)
            (hw.publish he hev hrow hin hbuilt.2)
  · intro w o err w' hw _ hx
    obtain ⟨hx, hn⟩ := exec_noting.mp hx
    obtain ⟨_, _, _, hr, _⟩ | ⟨_, _, _, hw'⟩ := stored_some hx
    · cases hr
    · obtain rfl : w' = w := Prod.ext hw' hn
      exact Safe.raise (told_stable loads config es) (fun _ h => h.cutThere) (fun _ h => h) hw

end Between

/-! ## Runs -/

section Runs

variable {β : Type} {es : List (Nat × Fields)}

theorem handleLedger_done {e : Nat × Fields} (he : e ∈ es) {w : RiskWorld F × Notes F}
    (h : Told loads config es w) : NewsSafe loads config (fun r w => match r with
      | .ok _ => Done loads config e.2 es w
      | .error _ => Told loads config es w) (handleLedger loads config e.2) w := by
  have hmem := List.mem_of_getElem? (StreamLog.mem_after.mp (h.kept.entries he)).2
  have hvalid : SchemaValid (envelope loads e.2) :=
    h.kept.stream.valid.valid _ (List.mem_map_of_mem hmem)
  rw [handleLedger_eq, hvalid.entryEvent]
  exact applyAndPublish_done he hvalid.entryEvent h

/-- One entry and its acknowledgement. -/
theorem Tells.entry {e : Nat × Fields} (he : e ∈ es) {f : Bool → RiskM F β}
    (hf : ∀ sent, Tells loads config es (f sent)) : Tells loads config es (do
      let sent ← handleLedger loads config e.2
      Prog.perform (RiskCall.xack .ledger e.1)
      f sent) := by
  intro w h
  refine Safe.bind ((handleLedger_done he h).mono fun r w hw => ?_)
  cases r with
  | error err => exact hw
  | ok sent =>
    have hack : ∀ (o : RiskChoice F) (r : Except PyError Unit) (w w' : RiskWorld F × Notes F),
        Done loads config e.2 es w →
        (noted loads config).exec (.xack .ledger e.1) o w = some (r, w') →
        Told loads config es w' := by
      intro o r w w' hw hx
      obtain ⟨hx, hn⟩ := exec_noting.mp hx
      obtain ⟨w', n⟩ := w'
      obtain rfl : n = w.2 := hn
      obtain rfl | rfl : w' = w.1 ∨ w' = { w.1 with ledger := w.1.ledger.ack e.1 } :=
        redis_effect hx
      · exact hw.1
      · exact hw.ack he
    refine Safe.perform (done_stable loads config e.2 es) (fun _ h => h.1.cutThere) ?_ ?_ hw
    · exact fun w o _ w' hw _ hx => hf sent w' (hack o _ w w' hw hx)
    · exact fun w o err w' hw _ hx => Safe.raise (told_stable loads config es)
        (fun _ h => h.cutThere) (fun _ h => h) (hack o _ w w' hw hx)

/-- The loops over the entries of a reply. -/
theorem entries_tell (rs : List (Nat × Fields)) : rs ⊆ es → ∀ n,
    Tells loads config es (reclaimEntries loads config rs n) ∧
      Tells loads config es (drainEntries loads config rs n) := by
  induction rs with
  | nil => exact fun _ n => ⟨Tells.only (only_ret n), Tells.only (only_ret n)⟩
  | cons e rs ih =>
    intro hes n
    obtain ⟨he, hes⟩ := List.cons_subset.mp hes
    exact ⟨Tells.entry he fun _ => (ih hes _).1, Tells.entry he fun _ => (ih hes _).2⟩

/-- A pass: a call that hands out entries of the stream, and a program that
takes them up. -/
theorem Tells.pass {i : RiskCall F} (hi : i.onNews = false)
    (entries : i.Result → List (Nat × Fields)) {take : i.Result → RiskM F Int}
    (hexec : ∀ o w r w', riskExec i o w = some (.ok r, w') →
      ConsumerGroup.InOrder w'.ledger.log (entries r))
    (htake : ∀ r, Tells loads config (entries r) (take r)) :
    Tells loads config [] (Prog.perform i >>= take) := by
  intro w h
  refine Safe.perform (told_stable loads config []) (fun _ h => h.cutThere) ?_ ?_ h
  · intro w o r w' hw _ hx
    have hw' := hw.quiet hi hx
    have hentries := (hexec o _ _ _ (exec_noting.mp hx).1).subset
    exact (htake r w' { hw' with kept := { hw'.kept with entries := hentries } }).mono
      fun _ _ h => h.drop
  · intro w o e w' hw _ hx
    exact Safe.raise (told_stable loads config []) (fun _ h => h.cutThere) (fun _ h => h)
      (hw.quiet hi hx)

theorem reclaimLedger_tells : Tells loads config [] (reclaimLedger loads config) := by
  refine Tells.pass (i := .xautoclaim ..) rfl id (fun o w r w' hx => ?_)
    fun r => (entries_tell r (List.Subset.refl _) 0).1
  simp only [riskExec] at hx
  split at hx
  · obtain ⟨hr, rfl⟩ | ⟨⟨_, hr⟩, -⟩ := redis_some hx
    · cases hr
      exact w.ledger.inOrder_claimable _ _
    · cases hr
  · cases hx

theorem drainLedger_tells : Tells loads config [] (drainLedger loads config) := by
  refine Tells.pass (i := .xreadgroup .ledger _) rfl id (fun o w r w' hx => ?_)
    fun r => (entries_tell r (List.Subset.refl _) 0).2
  simp only [riskExec] at hx
  split at hx
  · obtain ⟨hr, rfl⟩ | ⟨⟨_, hr⟩, -⟩ := redis_some hx
    · cases hr
      exact w.ledger.inOrder_unread _
    · cases hr
  · cases hx

theorem cycle_tells : Tells loads config [] (cycle loads config) := by
  have hrefresh : Tells loads config [] (refreshPrices loads config) :=
    Tells.only (only_refreshPrices (fun _ => rfl) (fun _ => rfl) (fun _ _ => rfl)
      fun _ _ _ _ => rfl)
  exact reclaimLedger_tells.bind fun _ => hrefresh.bind fun _ => drainLedger_tells

theorem maybeRecompute_tells (now : Option F) :
    Tells loads config [] (maybeRecompute config now) := by
  have hbuilds : Builds fun i : RiskCall F => i.onEntry = false :=
    ⟨rfl, rfl, rfl, fun _ _ _ => rfl, fun _ => rfl⟩
  exact Tells.only (hbuilds.maybeRecompute (fun _ _ _ _ => rfl) rfl rfl (fun _ => rfl) now)

theorem told_proof : Proof (noted loads config) (announcing config (Correlated loads))
    (Told loads config []) (CutThere loads config) (fun _ => Told loads config []) where
  enter c w h _ := by
    cases c with
    | cycle => exact cycle_tells w h
    | maybeRecompute now => exact maybeRecompute_tells now w h
  leave _ _ h := h
  crash w h hg := (h.told hg).same ⟨List.prefix_refl _, rfl, rfl, rfl⟩ rfl h.kept.stream
  idle_crash w h _ := h.same ⟨List.prefix_refl _, rfl, rfl, rfl⟩ rfl h.kept.stream
  idle_env := told_stable loads config []

theorem Unannounced.told {w : RiskWorld F × Notes F} (h : Unannounced loads w) :
    Told loads config [] w := by
  obtain ⟨⟨hnew, -, hevents⟩, hstream, hnotes⟩ := h
  refine ⟨⟨hstream, List.nil_subset _, ?_, ?_⟩, by rw [hnotes], ?_⟩
  · rw [AckedTold, hnew.acked]
    nofun
  · rw [hnotes]
    nofun
  · rw [hevents]
    nofun

/-- Envelopes are told apart by their event ids. -/
theorem NewsKept.announced {w : RiskWorld F × Notes F} (h : NewsKept loads config [] w) :
    Announced loads config w := by
  intro id hid
  obtain ⟨fields, hmem, row, hrowid, fields', hf, event, hev, hrow, a, ha, hin, hof⟩ :=
    h.acked id hid
  have henv : envelope loads fields ∈ envelopes loads w.1.ledger.log :=
    List.mem_map_of_mem (List.mem_of_getElem? (StreamLog.mem_after.mp hmem).2)
  have henv' : envelope loads fields' ∈ envelopes loads w.1.ledger.log := List.mem_map_of_mem hf
  have hvalid := h.stream.valid.valid _ henv'
  obtain ⟨_, hr, hrowof⟩ := hvalid.row_of_event hev hrow
  cases hr
  have hsame : envelope loads fields' = envelope loads fields :=
    h.stream.valid.event_id _ henv' _ henv (hrowof.event_id.symm.trans hrowid)
  rw [hvalid.entryEvent] at hev
  cases hev
  rw [hsame] at hof
  refine ⟨fields, hmem, a, ha, h.sent a ha, ?_, hof.account_id, hof.metrics, ?_⟩
  · rw [← hrowid]
    exact List.mem_map_of_mem hin
  · exact hof.correlation_id (h.stream.correlation_id _ henv)

/-- **Acknowledged events are announced.** In every run of the worker in which
no crash and no lost addition comes between an event and its announcement, and
each account has metrics once an event of it is applied, each acknowledged
entry has an envelope on `risk.updates`, in every state. -/
theorem events_announced
    {s : State (RiskCall F) RiskCall.Result PyError (RiskWorld F × Notes F) Int}
    (h : Reach (step (noted loads config)) (announcing config (Correlated loads)).ok
      (idle (Unannounced loads)) s) :
    Reach (step (worker loads config)) (growing .any (Correlated loads)).ok (idle (fresh loads))
      s.erase ∧ Announced loads config s.world := by
  constructor
  · exact reach_erase (H := growing .any (Correlated loads)) (fun _ hs => ⟨hs.1.1, hs.2⟩)
      (fun _ _ _ => trivial) (fun _ _ _ _ => trivial) (fun _ _ => trivial)
      (fun _ _ he => ⟨trivial, he⟩) h
  · exact told_proof.always (A := Announced loads config) (fun _ h => h.kept.announced)
      (fun _ h => h.kept.announced) (h.mono (fun _ hs => ⟨hs.1.told, hs.2⟩) fun _ _ h => h)

end Runs

/-! ## One purchase -/

instance (s : RiskStore F) (a : Json F) : Decidable (Valued config s a) :=
  match h : metricsOf config s a with
  | .ok m => decidable_of_iff (RiskStore.RiskMetrics.bindable m = true)
      ⟨fun hb => ⟨m, h, hb⟩, fun ⟨m', hm, hb⟩ => by rw [h] at hm; cases hm; exact hb⟩
  | .error e => .isFalse fun ⟨m, hm, _⟩ => by rw [h] at hm; cases hm

instance (s : RiskStore F) (row : AppliedEvent F) : Decidable (s.IsNew row) :=
  inferInstanceAs (Decidable (¬ (_ ∧ _)))

/-- Whether the event may be applied. -/
def mayApply (config : Config F) (s : RiskStore F) (e : RiskStore.LedgerEvent F) : Bool :=
  match e.row with
  | .ok (some row) => s.IsNew row → Valued config (s.withRow row) e.account_id
  | _ => true

theorem mayApply_iff {s : RiskStore F} {e : RiskStore.LedgerEvent F} :
    mayApply config s e = true ↔ ∀ row, e.row = .ok (some row) → s.IsNew row →
      Valued config (s.withRow row) e.account_id := by
  rw [mayApply]
  split
  · rename_i row hrow
    rw [hrow, decide_eq_true_eq]
    refine ⟨fun h row' hr => ?_, fun h => h row rfl⟩
    cases hr
    exact h
  · rename_i hrow
    exact ⟨fun _ row hr => absurd hr (hrow row), fun _ => rfl⟩

instance : (i : RiskCall F) → (o : RiskChoice F) → (w : RiskWorld F × Notes F) →
    Decidable (AnnouncingCall config i o w)
  | .xadd _, .raiseBefore, w => inferInstanceAs (Decidable (w.2.owing = false))
  | .xadd _, .done, _ | .xadd _, .text _, _ | .xadd _, .time _, _ | .xadd _, .raiseAfter, _ =>
    .isTrue trivial
  | .applyLedgerEvent _, _, _ => decidable_of_iff _ mayApply_iff
  | .xreadgroup _ _, _, _ | .xautoclaim _ _, _, _ | .xack _ _, _, _ | .select, _, _
  | .upsertPrice _ _, _, _ | .appendPrice _ _ _ _, _, _ | .appendPv _ _ _ _, _, _
  | .saveRiskSnapshot _ _ _, _, _ | .nowIso, _, _ | .uuid4, _, _ | .monotonic, _, _
  | .lastRecompute, _, _ | .setLastRecompute _, _, _ => .isTrue trivial

section Guard

variable {P : List Fields → Prop}

instance (c : WorkerCall F) (w : RiskWorld F × Notes F) :
    Decidable ((announcing config P).enter c w) := .isTrue trivial
instance (i : RiskCall F) (o : RiskChoice F) (w : RiskWorld F × Notes F) :
    Decidable ((announcing config P).call i o w) :=
  inferInstanceAs (Decidable (AnnouncingCall config i o w))
instance (w : RiskWorld F × Notes F) : Decidable ((announcing config P).crash w) :=
  inferInstanceAs (Decidable (w.2.owing = false))
instance (e : RiskEnv) (w : RiskWorld F × Notes F) :
    Decidable ((announcing config fun _ => False).env e w) :=
  inferInstanceAs (Decidable (growsAs (fun _ => False) e w.1))

end Guard

theorem oneBuy_fresh : fresh buyLoads oneBuy := by
  have henv : envelopes buyLoads oneBuy.ledger.log = [firstBuy.json] :=
    congrArg (· :: []) envelope_firstBuy
  refine ⟨⟨rfl, fun _ => rfl, rfl⟩, ⟨fun env h => ?_, fun env h env' h' _ => ?_⟩, rfl⟩
  · rw [henv] at h
    exact List.mem_singleton.mp h ▸ firstBuy.schemaValid
  · rw [henv] at h h'
    exact (List.mem_singleton.mp h).trans (List.mem_singleton.mp h').symm

theorem oneBuy_unannounced : Unannounced buyLoads (oneBuy, ⟨false, []⟩) := by
  refine ⟨oneBuy_fresh, ⟨oneBuy_fresh.2.1, fun env h => ?_⟩, rfl⟩
  obtain rfl : env = firstBuy.json := by
    have henv : envelopes buyLoads oneBuy.ledger.log = [firstBuy.json] :=
      congrArg (· :: []) envelope_firstBuy
    exact List.mem_singleton.mp (henv ▸ h)
  decide

/-- A crash before the event is applied, and an addition that raises once it has
taken effect; the entry is reclaimed twice. -/
def announcedLate : List (WorkerAct ℚ) :=
  opening ++ [.crash, .env (.elapse 30000), .enter .cycle, .call .done] ++ applyNew "t1" ++
    [.call (.text "r1"), .call .raiseAfter, .leave, .env (.elapse 30000), .enter .cycle,
      .call .done] ++ applyKnown

theorem events_announced_late :
    ∃ s : State (RiskCall ℚ) RiskCall.Result PyError (RiskWorld ℚ × Notes ℚ) Int,
      s.world.1.ledger.acked = [1] ∧ Announced buyLoads settings s.world := by
  obtain ⟨s, hs, hp⟩ := Reach.exists_of_run (step (noted buyLoads settings))
    (announcing settings fun _ => False).ok (idle (Unannounced buyLoads)) announcedLate
    (fun s => s.world.1.ledger.acked = [1]) (s := ⟨(oneBuy, ⟨false, []⟩), none⟩)
    ⟨oneBuy_unannounced, rfl⟩ (by decide +kernel)
  refine ⟨s, of_decide_eq_true hp, (events_announced (hs.mono (fun _ h => h) fun s a h => ?_)).2⟩
  exact Guard.ok_mono (G := announcing settings fun _ => False)
    (H := announcing settings (Correlated buyLoads)) (fun _ _ h => h) (fun _ _ _ h => h)
    (fun _ h => h) (fun _ _ h => growsAs_of_none h) h

/-- A crash between an event and its announcement: the entry is reclaimed, its
event known by then, and acknowledged with nothing on `risk.updates`. -/
theorem announcement_lost : ∃ s : WorkerState ℚ,
    Reach (step (worker buyLoads settings)) Guard.any.ok (idle (fresh buyLoads)) s ∧
      1 ∈ s.world.ledger.acked ∧ s.world.risk = [] := by
  obtain ⟨s, hs, hp⟩ := Reach.exists_of_run (step (worker buyLoads settings)) Guard.any.ok
    (idle (fresh buyLoads)) crashBetween
    (fun s => 1 ∈ s.world.ledger.acked ∧ s.world.risk.isEmpty) (s := ⟨oneBuy, none⟩)
    ⟨oneBuy_fresh, rfl⟩ (by decide +kernel)
  obtain ⟨hacked, hrisk⟩ := of_decide_eq_true hp
  exact ⟨s, hs, hacked, List.isEmpty_iff.mp hrisk⟩

end TradePulse.Risk
