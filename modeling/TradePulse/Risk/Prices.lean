import TradePulse.Risk.Malformed
import TradePulse.Core.Rows

/-! # The latest price and the ticks acknowledged

A tick is acknowledged behind its price. So the price cached for a symbol is
that of the tick of the symbol acknowledged last, unless a tick of the symbol
is pending, which may be in the cache or not. -/
namespace TradePulse.Risk
open TradePulse.Core TradePulse.Core.Process TradePulse.Core.Runs
open TradePulse.Core.Prog (only_perform only_ofExcept only_ret)
open TradePulse.Core.StreamLog (after)

variable {F : Type} [PyFloat F] {loads : String → Except PyError (Json F)} {config : Config F}

/-! ## `TickReceived.v1` envelopes -/

/-- A `TickReceived.v1` envelope with a price that is finite as a double. -/
structure TickValid (env : Json F) : Prop where
  data : ∃ kvs, env.data = .obj kvs
  symbol : ∃ y, y ≠ "" ∧ env.data.field "symbol" = .str y
  price : (env.data.field "price").IsNumber
  tick_time : ∃ t, env.data.field "tick_time" = .str t

variable (loads) in
/-- The symbol and the price of a tick. -/
def tickEntry (fields : Fields) : Option (String × F) :=
  ((envelope loads fields).data.field "symbol").text?.map fun y =>
    (y, ((envelope loads fields).data.field "price").number)

theorem TickValid.parseEvent {fields : Fields} (h : TickValid (envelope loads fields)) :
    parseEvent loads fields = .ok (envelope loads fields) ∧ envelope loads fields ≠ .null := by
  obtain ⟨y, -, hy⟩ := h.symbol
  constructor
  · cases hp : Risk.parseEvent loads fields with
    | ok env => rw [envelope, hp, Except.toOption, Option.getD_some]
    | error e =>
      rw [envelope, hp] at hy
      cases hy
  · intro hnull
    rw [hnull] at hy
    cases hy

theorem TickValid.tickOf {env : Json F} (h : TickValid env) : ∃ y t,
    env.data.field "symbol" = .str y ∧
      tickOf env = .ok (some (.str y, (env.data.field "price").number, .str t)) := by
  obtain ⟨kvs, hdata⟩ := h.data
  obtain ⟨y, hne, hy⟩ := h.symbol
  obtain ⟨t, ht⟩ := h.tick_time
  have hpayload : payload env = env.data := Json.or_empty hdata
  have henv : ∃ kvs, env = .obj kvs := by
    cases env with
    | obj kvs => exact ⟨kvs, rfl⟩
    | _ => cases hdata
  have hs : Shaped env := ⟨henv, .inr ⟨kvs, hdata⟩⟩
  have hnamed : ((payload env).field "symbol").truthy = true := by
    rw [hpayload, hy]
    exact decide_eq_true hne
  refine ⟨y, t, hy, ?_⟩
  rw [tickOf_named hs hnamed, hpayload, tickPrice_some h.price.toFloat.1, hy, ht]
  rfl

theorem not_nan_of_finite {x : F} (h : PyFloat.isFinite x = true) : PyFloat.isNaN x = false := by
  simp only [PyFloat.isFinite, Bool.and_eq_true, Bool.not_eq_true'] at h
  exact h.1

/-- Taking up a valid tick records it. -/
theorem TickValid.handleTick {fields : Fields} (h : TickValid (envelope loads fields))
    (config : Config F) :
    ∃ y p t, tickEntry loads fields = some (y, p) ∧ PyFloat.isNaN p = false ∧
      handleTick loads config fields =
        (recordTick config (some (.str y, p, .str t)) >>= fun _ => .ret ()) := by
  obtain ⟨hp, hne⟩ := h.parseEvent
  obtain ⟨y, t, hy, htick⟩ := h.tickOf
  refine ⟨y, _, t, ?_, not_nan_of_finite h.price.toFloat.2, ?_⟩
  · rw [tickEntry, hy]
    rfl
  · have hhandle : Risk.handleTick loads config fields =
        (processTickEnvelope config (envelope loads fields) >>= fun _ => .ret ()) := by
      rw [Risk.handleTick, hp]
      cases henv : envelope loads fields with
      | null => exact absurd henv hne
      | _ => rfl
    rw [hhandle, processTickEnvelope_eq, htick]
    rfl

/-! ## The price cache -/

section Cache

variable {s s' : RiskStore F} {y : String} {p : F}

/-- The upsert of a price. -/
theorem getPrice_upsert (hp : PyFloat.isNaN p = false)
    (h : s.upsertPrice (.str y) p = .ok ((), s')) (z : String) :
    s'.getPrice z = if z = y then some p else s.getPrice z := by
  simp only [RiskStore.upsertPrice, Json.bindText, RiskStore.bindReal_of_not_nan hp, bind,
    Except.bind, pure, Except.pure, Option.isSome_some, true_and] at h
  split at h
  · rename_i hany
    cases h
    obtain ⟨old, hold⟩ := Option.isSome_iff_exists.mp
      (List.find?_isSome.mpr (List.any_eq_true.mp hany))
    rw [RiskStore.getPrice, find?_key_update fun _ h => by exact h]
    by_cases hzy : z = y <;> simp [hzy, hold, RiskStore.getPrice]
  · rename_i hany
    cases h
    have hnew : ∀ row ∈ s.price_cache, row.1 ≠ some y := fun row hmem hrow =>
      hany (List.any_eq_true.mpr ⟨row, hmem, decide_eq_true hrow⟩)
    rw [RiskStore.getPrice, find?_insert hnew]
    by_cases hzy : z = y <;> simp [hzy, RiskStore.getPrice]

end Cache

/-! ## The invariant -/

section Invariant

variable (loads) in
/-- The tick of an entry of the stream. -/
def tickAt (log : List Fields) (id : Nat) : Option (String × F) :=
  (log[id - 1]?).bind (tickEntry loads)

variable (loads) in
/-- The price of the last tick of a symbol to be acknowledged. -/
def lastPrice (g : ConsumerGroup Fields) (y : String) : Option F :=
  (((g.acked.filterMap (tickAt loads g.log)).filter (·.1 = y)).getLast?).map (·.2)

variable (loads) in
/-- A tick of the symbol is pending. -/
def TickPending (g : ConsumerGroup Fields) (y : String) : Prop :=
  ∃ id p, g.pending id ≠ none ∧ tickAt loads g.log id = some (y, p)

variable (loads) in
/-- The cached prices follow the acknowledgements. -/
structure Priced (g : ConsumerGroup Fields) (s : RiskStore F) : Prop where
  valid : ∀ fields ∈ g.log, TickValid (envelope loads fields)
  acked : ∀ id ∈ g.acked, id ≤ g.log.length ∧ 0 < id
  price : ∀ y, TickPending loads g y ∨ s.getPrice y = lastPrice loads g y

theorem tickAt_grow {log log' : List Fields} (h : log <+: log') {id : Nat} (hid : id ≤ log.length)
    (hpos : 0 < id) : (tickAt loads log' id : Option (String × F)) = tickAt loads log id := by
  obtain ⟨new, rfl⟩ := h
  rw [tickAt, tickAt, List.getElem?_append_left (by omega)]

theorem tickAt_some_grow {log log' : List Fields} (h : log <+: log') {id : Nat} {t : String × F}
    (ht : tickAt loads log id = some t) : tickAt loads log' id = some t := by
  obtain ⟨new, rfl⟩ := h
  obtain ⟨fields, hf, hentry⟩ := Option.bind_eq_some_iff.mp ht
  rw [tickAt, List.getElem?_append_left (List.getElem?_eq_some_iff.mp hf).1, hf]
  exact hentry

theorem TickPending.grow {g g' : ConsumerGroup Fields} {y : String} (h : TickPending loads g y)
    (hlog : g.log <+: g'.log) (hpend : ∀ id, g.pending id ≠ none → g'.pending id ≠ none) :
    TickPending loads g' y := by
  obtain ⟨id, p, hid, ht⟩ := h
  exact ⟨id, p, hpend id hid, tickAt_some_grow hlog ht⟩

theorem lastPrice_grow {g g' : ConsumerGroup Fields} (hrange : ∀ id ∈ g.acked, id ≤ g.log.length ∧ 0 < id)
    (hlog : g.log <+: g'.log) (hacked : g'.acked = g.acked) (y : String) :
    (lastPrice loads g' y : Option F) = lastPrice loads g y := by
  rw [lastPrice, lastPrice, hacked]
  congr 3
  exact List.filterMap_congr fun id hid => tickAt_grow hlog (hrange id hid).1 (hrange id hid).2

/-- A stream that grows, and deliveries. -/
theorem Priced.grow {g g' : ConsumerGroup Fields} {s s' : RiskStore F} (h : Priced loads g s)
    (hlog : g.log <+: g'.log) (hvalid : ∀ fields ∈ g'.log, TickValid (envelope loads fields))
    (hacked : g'.acked = g.acked) (hpend : ∀ id, g.pending id ≠ none → g'.pending id ≠ none)
    (hcache : s'.price_cache = s.price_cache) : Priced loads g' s' where
  valid := hvalid
  acked id hid := by
    obtain ⟨hle, hpos⟩ := h.acked id (hacked ▸ hid)
    exact ⟨hle.trans hlog.length_le, hpos⟩
  price y := by
    rw [lastPrice_grow h.acked hlog hacked, RiskStore.getPrice, hcache]
    exact (h.price y).imp_left fun hp => hp.grow hlog hpend

/-- A tick in hand, before its acknowledgement. -/
structure InHand (g : ConsumerGroup Fields) (entries : List (Nat × Fields)) : Prop where
  order : ConsumerGroup.InOrder g.log entries
  pending : ∀ e ∈ entries, g.pending e.1 ≠ none

theorem InHand.tickAt {g : ConsumerGroup Fields} {entries : List (Nat × Fields)}
    (h : InHand g entries) {e : Nat × Fields} (he : e ∈ entries) :
    (tickAt loads g.log e.1 : Option (String × F)) = tickEntry loads e.2 := by
  rw [Risk.tickAt, (h.order.getElem? he).2]
  rfl

/-- The price of a tick in hand is cached. -/
theorem Priced.upsert {g : ConsumerGroup Fields} {s s' : RiskStore F} (h : Priced loads g s)
    {entries : List (Nat × Fields)} (hhand : InHand g entries) {e : Nat × Fields}
    (he : e ∈ entries) {y : String} {p : F} (hentry : tickEntry loads e.2 = some (y, p))
    (hprice : ∀ z, s'.getPrice z = if z = y then some p else s.getPrice z) :
    Priced loads g s' where
  valid := h.valid
  acked := h.acked
  price z := by
    by_cases hz : z = y
    · subst hz
      exact .inl ⟨e.1, p, hhand.pending e he, (hhand.tickAt he).trans hentry⟩
    · rw [hprice, if_neg hz]
      exact h.price z

theorem lastPrice_ack {g : ConsumerGroup Fields} {id : Nat} {y : String} {p : F}
    (ht : tickAt loads g.log id = some (y, p)) (z : String) :
    lastPrice loads (g.ack id) z = if z = y then some p else lastPrice loads g z := by
  rw [lastPrice, ConsumerGroup.acked_ack, ConsumerGroup.log_ack, List.filterMap_append,
    List.filterMap_cons_some ht, List.filterMap_nil, List.filter_append]
  by_cases hz : z = y
  · subst hz
    simp
  · simp [hz, Ne.symm hz, lastPrice]

/-- Its acknowledgement. -/
theorem Priced.ack {g : ConsumerGroup Fields} {s : RiskStore F} (h : Priced loads g s)
    {e : Nat × Fields} {rest : List (Nat × Fields)} (hhand : InHand g (e :: rest)) {y : String}
    {p : F} (hentry : tickEntry loads e.2 = some (y, p)) (hprice : s.getPrice y = some p) :
    Priced loads (g.ack e.1) s where
  valid := h.valid
  acked id hid := by
    rcases List.mem_append.mp hid with hid | hid
    · exact h.acked id hid
    · obtain ⟨hpos, hget⟩ := hhand.order.getElem? (List.mem_cons_self ..)
      obtain ⟨hlt, -⟩ := List.getElem?_eq_some_iff.mp hget
      rw [List.mem_singleton.mp hid, ConsumerGroup.log_ack]
      omega
  price z := by
    have ht := (hhand.tickAt (List.mem_cons_self ..)).trans hentry
    rw [lastPrice_ack ht]
    by_cases hz : z = y
    · subst hz
      exact .inr (hprice.trans (if_pos rfl).symm)
    · rw [if_neg hz]
      refine (h.price z).imp_left fun ⟨id, q, hid, htick⟩ => ⟨id, q, ?_, htick⟩
      have hne : id ≠ e.1 := by
        rintro rfl
        rw [ht] at htick
        cases htick
        exact hz rfl
      simpa [ConsumerGroup.ack, hne] using hid

omit [PyFloat F] in
theorem InHand.ack {g : ConsumerGroup Fields} {e : Nat × Fields} {rest : List (Nat × Fields)}
    (h : InHand g (e :: rest)) : InHand (g.ack e.1) rest where
  order := (List.sublist_cons_self ..).trans h.order
  pending e' he' := by
    have hlt := (List.pairwise_cons.mp ((StreamLog.after_pairwise g.log 0).sublist h.order)).1 e' he'
    simpa [ConsumerGroup.ack, (Nat.ne_of_lt hlt).symm] using
      h.pending e' (List.mem_cons_of_mem _ he')

omit [PyFloat F] in
theorem InHand.grow {g g' : ConsumerGroup Fields} {entries : List (Nat × Fields)}
    (h : InHand g entries) (hlog : g.log <+: g'.log) (hpend : g'.pending = g.pending) :
    InHand g' entries where
  order := h.order.grow hlog
  pending e he := hpend ▸ h.pending e he

theorem Priced.read {g : ConsumerGroup Fields} {s : RiskStore F} (h : Priced loads g s)
    (count : Nat) : Priced loads (g.readgroup count) s ∧
      InHand (g.readgroup count) (g.unread count) := by
  refine ⟨h.grow (List.prefix_refl _) h.valid rfl (fun id hid => ?_) rfl,
    g.inOrder_unread count, fun e he => ?_⟩
  · simp only [ConsumerGroup.readgroup, ConsumerGroup.deliver]
    split
    · intro h
      cases h
    · exact hid
  · simp only [ConsumerGroup.readgroup, ConsumerGroup.deliver]
    rw [if_pos (List.mem_map_of_mem he)]
    intro h
    cases h

end Invariant

/-! ## Runs -/

section Runs

variable (loads) in
/-- New ticks are valid. -/
def NewTicksValid : RiskEnv → Prop
  | .addTick fields => TickValid (envelope loads fields)
  | _ => True

variable (loads) in
def PricedWorld (w : RiskWorld F) : Prop := Priced loads w.ticks w.store

variable (loads) in
/-- Ticks in hand, to be taken up. -/
def TickTodo (entries : List (Nat × Fields)) (w : RiskWorld F) : Prop :=
  PricedWorld loads w ∧ InHand w.ticks entries

variable (loads) in
/-- The first tick in hand is cached. -/
def TickDone (e : Nat × Fields) (rest : List (Nat × Fields)) (w : RiskWorld F) : Prop :=
  TickTodo loads (e :: rest) w ∧
    ∀ y p, tickEntry loads e.2 = some (y, p) → w.store.getPrice y = some p

/-- The ticks group and the price cache. -/
structure SameTicks (w w' : RiskWorld F) : Prop where
  ticks : w'.ticks = w.ticks
  cache : w'.store.price_cache = w.store.price_cache

theorem PricedWorld.same {w w' : RiskWorld F} (h : PricedWorld loads w) (hw : SameTicks w w') :
    PricedWorld loads w' := by
  refine Priced.grow h (hw.ticks.symm ▸ List.prefix_refl _) (fun f hf => h.valid f (hw.ticks ▸ hf))
    (by rw [hw.ticks]) (fun id hid => by rwa [hw.ticks]) hw.cache

theorem TickDone.same {e : Nat × Fields} {rest : List (Nat × Fields)} {w w' : RiskWorld F}
    (h : TickDone loads e rest w) (hw : SameTicks w w') : TickDone loads e rest w' := by
  obtain ⟨⟨hp, hhand⟩, hprice⟩ := h
  refine ⟨⟨hp.same hw, hw.ticks ▸ hhand⟩, fun y p hy => ?_⟩
  rw [RiskStore.getPrice, hw.cache]
  exact hprice y p hy

/-- The calls that move the ticks group or the price cache. -/
def RiskCall.onTicks : RiskCall F → Bool
  | .xreadgroup .ticks _ | .xack .ticks _ | .upsertPrice _ _ => true
  | _ => false

/-- A call that leaves both alone. -/
def OffTicks (i : RiskCall F) : Prop := i.onTicks = false

theorem ticks_frame {i : RiskCall F} (hi : OffTicks i) {o : RiskChoice F}
    {w w' : RiskWorld F} {r : Except PyError i.Result} (h : riskExec i o w = some (r, w')) :
    SameTicks w w' := by
  rcases exec_effect h with rfl | rfl
  · exact ⟨rfl, rfl⟩
  cases i with
  | xreadgroup s n =>
    cases s with
    | ledger => exact ⟨rfl, rfl⟩
    | ticks => cases hi
  | xack s id =>
    cases s with
    | ledger => exact ⟨rfl, rfl⟩
    | ticks => cases hi
  | upsertPrice y p => cases hi
  | appendPrice y p n t =>
    exact ⟨ticks_wrote .., wrote_frame _ fun _ _ h => by rw [RiskStore.appendPrice_only h]⟩
  | appendPv a v n t =>
    exact ⟨ticks_wrote .., wrote_frame _ fun _ _ h => by rw [RiskStore.appendPv_only h]⟩
  | applyLedgerEvent e =>
    exact ⟨ticks_wrote .., wrote_frame _ fun _ _ h => by rw [RiskStore.applyLedgerEvent_only h]⟩
  | saveRiskSnapshot a m t =>
    exact ⟨ticks_wrote .., wrote_frame _ fun _ _ h => by rw [RiskStore.saveRiskSnapshot_only h]⟩
  | _ => exact ⟨rfl, rfl⟩

/-- What the environment does to the ticks group. -/
theorem ticks_env {e : RiskEnv} {w : RiskWorld F} (he : NewTicksValid loads e)
    (h : ∀ fields ∈ w.ticks.log, TickValid (envelope loads fields)) :
    w.ticks.log <+: (riskEnv e w).ticks.log ∧ (riskEnv e w).ticks.acked = w.ticks.acked ∧
      (riskEnv e w).ticks.pending = w.ticks.pending ∧ (riskEnv e w).store = w.store ∧
      ∀ fields ∈ (riskEnv e w).ticks.log, TickValid (envelope loads fields) := by
  cases e with
  | addTick f =>
    refine ⟨List.prefix_append .., rfl, rfl, rfl, fun fields hf => ?_⟩
    rcases List.mem_append.mp hf with hf | hf
    · exact h fields hf
    · exact List.mem_singleton.mp hf ▸ he
  | setId s n => cases s <;> exact ⟨List.prefix_refl _, rfl, rfl, rfl, h⟩
  | _ => exact ⟨List.prefix_refl _, rfl, rfl, rfl, h⟩

variable {G : WorkerGuard F} (hG : ∀ e w, G.env e w → NewTicksValid loads e)

include hG in
variable (config) in
theorem priced_stable : Stable (worker loads config) G (PricedWorld loads) := by
  intro w e w' h hg hx
  cases hx
  obtain ⟨hlog, hacked, hpend, hstore, hvalid⟩ := ticks_env (hG e w hg) h.valid
  exact Priced.grow h hlog hvalid hacked (fun id hid => by rwa [hpend]) (by rw [hstore])

include hG in
variable (config) in
theorem tickTodo_stable (entries : List (Nat × Fields)) :
    Stable (worker loads config) G (TickTodo loads entries) := by
  intro w e w' h hg hx
  cases hx
  obtain ⟨hlog, -, hpend, -, -⟩ := ticks_env (hG e w hg) h.1.valid
  exact ⟨priced_stable config hG w e _ h.1 hg rfl, h.2.grow hlog hpend⟩

include hG in
variable (config) in
theorem tickDone_stable (x : Nat × Fields) (rest : List (Nat × Fields)) :
    Stable (worker loads config) G (TickDone loads x rest) := by
  intro w e w' h hg hx
  cases hx
  obtain ⟨-, -, -, hstore, -⟩ := ticks_env (hG e w hg) h.1.1.valid
  exact ⟨tickTodo_stable config hG _ w e _ h.1 hg rfl, fun y p hy => hstore ▸ h.2 y p hy⟩

variable {β : Type}

/-- `Safe` for the worker: the prices follow wherever it is cut off. -/
abbrev PricedSafe (loads : String → Except PyError (Json F)) (config : Config F)
    (G : WorkerGuard F) (p : RiskM F β) (w : RiskWorld F) : Prop :=
  Safe (worker loads config) G (PricedWorld loads) (fun _ => PricedWorld loads) p w

include hG in
theorem priced_quiet {p : RiskM F β} (hp : p.Only OffTicks) {w : RiskWorld F}
    (h : PricedWorld loads w) : PricedSafe loads config G p w :=
  Safe.only (priced_stable config hG) (fun _ h => h)
    (fun _ _ _ _ _ hi hw _ hx => hw.same (ticks_frame hi hx)) (fun _ _ h => h) hp h

include hG in
/-- One tick: its price is cached, or the worker raises. -/
theorem handleTick_safe {id : Nat} {fields : Fields} {rest : List (Nat × Fields)} {w : RiskWorld F}
    (h : TickTodo loads ((id, fields) :: rest) w) :
    Safe (worker loads config) G (PricedWorld loads)
      (fun r w => match r with
        | .ok _ => TickDone loads (id, fields) rest w
        | .error _ => PricedWorld loads w) (handleTick loads config fields) w := by
  have hmem : fields ∈ w.ticks.log :=
    List.mem_of_getElem? (h.2.order.getElem? (List.mem_cons_self ..)).2
  obtain ⟨y, p, t, hentry, hnan, heq⟩ := (h.1.valid fields hmem).handleTick config
  rw [heq, recordTick, Prog.bind_assoc]
  refine Safe.perform (tickTodo_stable config hG _) (fun _ h => h.1) ?_ ?_ h
  · intro w o u w' hw _ hx
    obtain ⟨r, store, hup, -, rfl⟩ | ⟨_, _, hr, _⟩ := stored_some hx
    · have hprice := getPrice_upsert hnan hup
      have hdone : TickDone loads (id, fields) rest { w with store } := by
        refine ⟨⟨hw.1.upsert hw.2 (List.mem_cons_self ..) hentry hprice, hw.2⟩, fun z q hz => ?_⟩
        rw [hentry] at hz
        cases hz
        exact (hprice y).trans (if_pos rfl)
      refine Safe.only (tickDone_stable config hG _ _) (fun _ h => h.1.1)
        (fun _ _ _ _ _ hi hw _ hx => hw.same (ticks_frame hi hx)) (fun r w hw => ?_) ?_ hdone
      · cases r with
        | ok _ => exact hw
        | error _ => exact hw.1.1
      · exact ((only_perform (P := OffTicks) (i := .appendPrice ..) rfl).bind
          fun _ => only_ret _).bind fun _ => only_ret _
    · cases hr
  · intro w o e w' hw _ hx
    obtain ⟨_, _, _, hr, _⟩ | ⟨_, _, _, rfl⟩ := stored_some hx
    · cases hr
    · exact Safe.raise (tickTodo_stable config hG _) (fun _ h => h.1) (fun _ h => h.1) hw

include hG in
theorem refreshTicks_safe (rs : List (Nat × Fields)) :
    ∀ (n : Int) (w : RiskWorld F), TickTodo loads rs w →
      PricedSafe loads config G (refreshTicks loads config rs n) w := by
  induction rs with
  | nil => exact fun n w h => Safe.ret (priced_stable config hG) (fun _ h => h) (fun _ h => h) h.1
  | cons x rs ih =>
    intro n w h
    refine Safe.bind ((handleTick_safe hG h).mono fun r w hw => ?_)
    cases r with
    | error e => exact hw
    | ok _ =>
      have hack : ∀ w, TickDone loads x rs w →
          TickTodo loads rs { w with ticks := w.ticks.ack x.1 } := by
        intro w hw
        have hmem : x.2 ∈ w.ticks.log :=
          List.mem_of_getElem? (hw.1.2.order.getElem? (List.mem_cons_self ..)).2
        obtain ⟨y, p, _, hentry, -⟩ := (hw.1.1.valid x.2 hmem).handleTick config
        exact ⟨hw.1.1.ack hw.1.2 hentry (hw.2 y p hentry), hw.1.2.ack⟩
      refine Safe.perform (tickDone_stable config hG x rs) (fun _ h => h.1.1) ?_ ?_ hw
      · intro w o r w' hw _ hx
        obtain ⟨-, rfl⟩ | ⟨⟨_, hr⟩, -⟩ := redis_some hx
        · exact ih (n + 1) _ (hack w hw)
        · cases hr
      · intro w o e w' hw _ hx
        refine Safe.raise (priced_stable config hG) (fun _ h => h) (fun _ h => h) ?_
        obtain ⟨hr, -⟩ | ⟨-, rfl | rfl⟩ := redis_some hx
        · cases hr
        · exact hw.1.1
        · exact (hack w hw).1

include hG in
theorem refreshPrices_safe {w : RiskWorld F} (h : PricedWorld loads w) :
    PricedSafe loads config G (refreshPrices loads config) w := by
  have hread : ∀ (w : RiskWorld F) (n : Nat), PricedWorld loads w →
      TickTodo loads (w.ticks.unread n) { w with ticks := w.ticks.readgroup n } :=
    fun w n hw => Priced.read hw n
  refine Safe.perform (priced_stable config hG) (fun _ h => h) ?_ ?_ h
  · intro w o r w' hw _ hx
    simp only [worker, riskExec] at hx
    split at hx
    · obtain ⟨hr, rfl⟩ | ⟨⟨_, hr⟩, -⟩ := redis_some hx
      · cases hr
        exact refreshTicks_safe hG _ 0 _ (hread w _ hw)
      · cases hr
    · cases hx
  · intro w o e w' hw _ hx
    refine Safe.raise (priced_stable config hG) (fun _ h => h) (fun _ h => h) ?_
    simp only [worker, riskExec] at hx
    split at hx
    · obtain ⟨hr, -⟩ | ⟨-, rfl | rfl⟩ := redis_some hx
      · cases hr
      · exact hw
      · exact (hread w _ hw).1
    · cases hx
      exact hw

omit [PyFloat F] in
theorem builds_offTicks : Builds (OffTicks (F := F)) :=
  ⟨rfl, rfl, rfl, fun _ _ _ => rfl, fun _ => rfl⟩

include hG in
theorem cycle_priced {w : RiskWorld F} (h : PricedWorld loads w) :
    PricedSafe loads config G (cycle loads config) w := by
  have hreclaim : (reclaimLedger loads config).Only OffTicks :=
    builds_offTicks.reclaimLedger (fun _ => rfl) (fun _ _ => rfl) fun _ => rfl
  have hdrain : (drainLedger loads config).Only OffTicks :=
    builds_offTicks.drainLedger (fun _ => rfl) (fun _ => rfl) fun _ => rfl
  refine Safe.bind ((priced_quiet hG hreclaim h).mono fun r w hw => ?_)
  cases r with
  | error e => exact hw
  | ok _ =>
    refine Safe.bind ((refreshPrices_safe hG hw).mono fun r w hw => ?_)
    cases r with
    | error e => exact hw
    | ok _ => exact priced_quiet hG hdrain hw

include hG in
theorem priced_proof : Proof (worker loads config) G (PricedWorld loads) (PricedWorld loads)
    (fun _ => PricedWorld loads) where
  enter c w h _ := by
    cases c with
    | cycle => exact cycle_priced hG h
    | maybeRecompute now =>
      exact priced_quiet hG (builds_offTicks.maybeRecompute (fun _ _ _ _ => rfl) rfl rfl
        (fun _ => rfl) now) h
  leave _ _ h := h
  crash _ h _ := h
  idle_crash _ h _ := h
  idle_env := priced_stable config hG

end Runs

end TradePulse.Risk
