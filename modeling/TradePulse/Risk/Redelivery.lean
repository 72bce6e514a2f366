import TradePulse.Core.Redelivery
import TradePulse.Risk.Positions
import TradePulse.Risk.Prices

/-! # Ticks read again

An operator puts the cursor of the ticks group back, and the worker takes up
entries that it had taken up before. The price cache is written over and ends
as it would have; the rolling windows are appended to, and are right where the
replay has pushed out what came before it. With a window whose limit SQLite
refuses, the first tick stays in hand for ever. -/
namespace TradePulse.Risk
open TradePulse.Core TradePulse.Core.Process TradePulse.Core.Runs TradePulse.Core.Redelivery
open TradePulse.Core.Prog (only_perform only_ret)
open TradePulse.Core.StreamLog (after)

variable {F : Type} [PyFloat F] {loads : String → Except PyError (Json F)} {config : Config F}

/-! ## The property -/

section Property

variable (loads) in
/-- A new group on valid ticks, and no price yet. -/
structure FreshTicks (w : RiskWorld F) : Prop where
  ticks : w.ticks.New
  valid : ∀ fields ∈ w.ticks.log, TickValid (envelope loads fields)
  price_cache : w.store.price_cache = []
  price_history : w.store.price_history = []

/-- The cursor goes back, if it is set. -/
def RiskEnv.putsBack : RiskEnv → RiskWorld F → Prop
  | .setId .ticks n, w => n ≤ w.ticks.next
  | _, _ => True

variable (loads) in
/-- Redis answers the calls on ticks, the worker does not crash on a tick, and
`XGROUP SETID` puts the cursor back, any number of times. -/
def replaying : WorkerGuard F where
  enter _ _ := True
  call i o _ := i.onTicks = true → o.answers = true
  crash w := ∀ id, w.ticks.pending id = none
  env e w := NewTicksValid loads e ∧ e.putsBack w

/-- The group has come to the end of the stream. -/
structure ReadToEnd (g : ConsumerGroup Fields) : Prop where
  next : g.log.length ≤ g.next
  pending : ∀ id, g.pending id = none

variable (loads config) in
/-- The ticks of the stream, each taken up once, in order. -/
def takenOnce (supply : Supply F) (w : RiskWorld F × Nat) (log : List Fields) :
    RiskWorld F × Nat :=
  log.foldl (fun w fields => (calmly supply (handleTick loads config fields) w).2) w

/-- What the store says of prices. -/
structure SamePrices (s s' : RiskStore F) : Prop where
  price : ∀ y, s.getPrice y = s'.getPrice y
  window : ∀ y, s.priceWindow y = s'.priceWindow y
  returns : ∀ y, s.returns y = s'.returns y

variable (loads) in
def isTickOf (log : List Fields) (y : String) (id : Nat) : Bool :=
  (tickAt loads log id).any (·.1 = y)

variable (loads) in
/-- The ids of a symbol's ticks, as often and in the order in which they were
taken up. -/
def ticksRead (g : ConsumerGroup Fields) (y : String) : List Nat :=
  g.acked.filter (isTickOf loads g.log y)

variable (loads config) in
/-- As many ticks of the symbol as its window keeps were the last to be taken
up, and in order: the cursor was not put back behind one of them. -/
def EndsInOrder (g : ConsumerGroup Fields) (y : String) : Prop :=
  (RiskStore.lastN (RiskStore.kept config.window_size) (ticksRead loads g y)).Pairwise (· < ·)

variable (loads) in
/-- No symbol has two ticks at one price. -/
def DistinctPrices (log : List Fields) : Prop := (log.map (tickEntry loads)).Nodup

end Property

/-! ## The tables -/

section Tables

variable (loads) in
def priceAt (log : List Fields) (id : Nat) : F := ((tickAt loads log id).map (·.2)).getD 0

variable (loads) in
/-- The cache after these ticks. -/
def Cached (log : List Fields) (ids : List Nat) (s : RiskStore F) : Prop :=
  ∀ y, s.getPrice y = ((ids.filter (isTickOf loads log y)).getLast?).map (priceAt loads log)

variable (loads config) in
/-- The windows after these ticks. -/
def Windowed (log : List Fields) (ids : List Nat) (s : RiskStore F) : Prop :=
  ∀ y, s.priceWindow y = RiskStore.lastN (RiskStore.kept config.window_size)
    ((ids.filter (isTickOf loads log y)).map (priceAt loads log))

variable {log : List Fields} {ids : List Nat} {id : Nat} {s s' : RiskStore F} {y : String} {p : F}
  {t : Option String}

theorem filter_isTickOf_snoc (ht : tickAt loads log id = some (y, p)) (z : String) :
    (ids ++ [id]).filter (isTickOf loads log z) =
      ids.filter (isTickOf loads log z) ++ if z = y then [id] else [] := by
  rw [List.filter_append]
  congr 1
  by_cases hz : z = y
  · rw [if_pos hz, List.filter_cons_of_pos, List.filter_nil]
    rw [isTickOf, ht, hz]
    exact decide_eq_true rfl
  · rw [if_neg hz, List.filter_cons_of_neg, List.filter_nil]
    rw [isTickOf, ht]
    exact fun h => hz (of_decide_eq_true h).symm

theorem cached_nil (h : s.price_cache = []) : Cached loads log [] s := by
  intro y
  rw [RiskStore.getPrice, h]
  rfl

theorem windowed_nil (h : s.price_history = []) : Windowed loads config log [] s := by
  intro y
  rw [RiskStore.priceWindow, h]
  exact List.drop_nil.symm

theorem priceAt_eq (ht : tickAt loads log id = some (y, p)) : priceAt loads log id = p := by
  rw [priceAt, ht]
  rfl

theorem Cached.upsert (h : Cached loads log ids s) (ht : tickAt loads log id = some (y, p))
    (hp : PyFloat.isNaN p = false) (hup : s.upsertPrice (.str y) p = .ok ((), s')) :
    Cached loads log (ids ++ [id]) s' := by
  intro z
  rw [getPrice_upsert hp hup, filter_isTickOf_snoc ht]
  by_cases hz : z = y
  · rw [if_pos hz, if_pos hz, List.getLast?_concat, Option.map_some, priceAt_eq ht]
  · rw [if_neg hz, if_neg hz, List.append_nil]
    exact h z

/-- The price goes to the end of its window, and the window is cut. -/
theorem priceWindow_append (hp : PyFloat.isNaN p = false) {windowSize : Int} {time : String}
    (happ : RiskStore.committed (s.appendPrice (.str y) p windowSize (.str time)) = .ok ((), s'))
    (z : String) :
    s'.priceWindow z = if z = y
      then RiskStore.lastN (RiskStore.kept windowSize) (s.priceWindow z ++ [p])
      else s.priceWindow z := by
  obtain ⟨-, row, hrow, rfl⟩ := s.appendPrice_some happ
  rw [RiskStore.priceRow_ok (y := y) (t := some time) rfl rfl hp] at hrow
  cases hrow
  simp only [RiskStore.priceWindow]
  by_cases hz : z = y
  · subst hz
    have hrow : ([⟨z, p, some time⟩] : List (PriceTick F)).filter (·.symbol = z) =
      [⟨z, p, some time⟩] := List.filter_cons_of_pos (decide_eq_true rfl)
    rw [if_pos rfl, RiskStore.evict_filter, RiskStore.lastN_map, List.filter_append, hrow,
      List.map_append]
    rfl
  · have hrow : ([⟨y, p, some time⟩] : List (PriceTick F)).filter (·.symbol = z) = [] :=
      List.filter_cons_of_neg fun h => hz (of_decide_eq_true h).symm
    rw [if_neg hz, RiskStore.evict_filter_other, List.filter_append, hrow, List.append_nil]
    intro row hrow
    rw [of_decide_eq_true hrow]
    exact decide_eq_false hz

theorem Windowed.append (h : Windowed loads config log ids s)
    (ht : tickAt loads log id = some (y, p)) (hp : PyFloat.isNaN p = false) {time : String}
    (happ : RiskStore.committed
      (s.appendPrice (.str y) p config.window_size (.str time)) = .ok ((), s')) :
    Windowed loads config log (ids ++ [id]) s' := by
  intro z
  rw [priceWindow_append hp happ, filter_isTickOf_snoc ht]
  by_cases hz : z = y
  · rw [if_pos hz, if_pos hz, h z, List.map_append, List.map_singleton, priceAt_eq ht]
    exact RiskStore.lastN_lastN_snoc ..
  · rw [if_neg hz, if_neg hz, List.append_nil]
    exact h z

theorem isTickOf_grow {log' : List Fields} (h : log <+: log') (hpos : 0 < id)
    (hle : id ≤ log.length) (y : String) :
    isTickOf loads log' y id = isTickOf (F := F) loads log y id := by
  rw [isTickOf, isTickOf, tickAt_grow h hle hpos]

theorem filter_grow {log' : List Fields} (h : log <+: log')
    (hids : ∀ id ∈ ids, 0 < id ∧ id ≤ log.length) (y : String) :
    ids.filter (isTickOf loads log' y) = ids.filter (isTickOf (F := F) loads log y) :=
  List.filter_congr fun id hid => isTickOf_grow h (hids id hid).1 (hids id hid).2 y

theorem priceAt_grow {log' : List Fields} (h : log <+: log') (hpos : 0 < id)
    (hle : id ≤ log.length) : (priceAt loads log' id : F) = priceAt loads log id := by
  rw [priceAt, priceAt, tickAt_grow h hle hpos]

theorem Cached.grow {log' : List Fields} (h : Cached loads log ids s) (hlog : log <+: log')
    (hids : ∀ id ∈ ids, 0 < id ∧ id ≤ log.length) : Cached loads log' ids s := by
  intro y
  rw [h y, filter_grow hlog hids]
  cases hlast : (ids.filter (isTickOf loads log y)).getLast? with
  | none => rfl
  | some id =>
    obtain ⟨hpos, hle⟩ := hids id (List.mem_of_mem_filter (List.mem_of_getLast? hlast))
    rw [Option.map_some, Option.map_some, priceAt_grow hlog hpos hle]

theorem Windowed.grow {log' : List Fields} (h : Windowed loads config log ids s)
    (hlog : log <+: log') (hids : ∀ id ∈ ids, 0 < id ∧ id ≤ log.length) :
    Windowed loads config log' ids s := by
  intro y
  rw [h y, filter_grow hlog hids]
  congr 1
  refine List.map_congr_left fun id hid => ?_
  obtain ⟨hpos, hle⟩ := hids id (List.mem_of_mem_filter hid)
  exact (priceAt_grow hlog hpos hle).symm

end Tables

/-! ## Runs -/

section Reading

variable (loads config) in
/-- Some entries are in hand; the first `k` of them are in the cache, and the
first `k'` of them are in the windows, whose size then binds. -/
structure Reading (k k' : Nat) (entries : List (Nat × Fields)) (w : RiskWorld F) : Prop where
  valid : ∀ fields ∈ w.ticks.log, TickValid (envelope loads fields)
  cursor : ∃ n, Redelivered n w.ticks.acked ∧ w.ticks.next ≤ n + entries.length ∧
    n + entries.length ≤ w.ticks.log.length ∧ entries <+: after w.ticks.log n
  acked : ∀ id ∈ w.ticks.acked, id ≤ w.ticks.log.length
  pending : ∀ id, w.ticks.pending id ≠ none ↔ id ∈ entries.map Prod.fst
  cache : Cached loads w.ticks.log (w.ticks.acked ++ (entries.map Prod.fst).take k) w.store
  windows : Windowed loads config w.ticks.log
    (w.ticks.acked ++ (entries.map Prod.fst).take k') w.store
  fits : w.ticks.acked ++ (entries.map Prod.fst).take k' ≠ [] → config.window_size < 2 ^ 63 - 1

variable (loads config) in
/-- No tick is in hand, and the tables hold what was acknowledged. -/
abbrev Resting (w : RiskWorld F) : Prop := Reading loads config 0 0 [] w

variable (loads config) in
/-- What holds wherever the worker is cut off. -/
def RestingUnlessPending (w : RiskWorld F) : Prop :=
  (∀ id, w.ticks.pending id = none) → Resting loads config w

variable (loads config) in
/-- A tick is in hand that the windows do not take. -/
structure Wedged (w : RiskWorld F) : Prop where
  valid : ∀ fields ∈ w.ticks.log, TickValid (envelope loads fields)
  pending : ∃ id, w.ticks.pending id ≠ none
  refused : ¬ config.window_size < 2 ^ 63 - 1

variable (loads config) in
/-- Where a call of the worker ends. -/
def Settled (w : RiskWorld F) : Prop := Resting loads config w ∨ Wedged loads config w

variable {k k' : Nat} {e : Nat × Fields} {entries : List (Nat × Fields)} {w w' : RiskWorld F}

theorem FreshTicks.resting (h : FreshTicks loads w) : Resting loads config w where
  valid := h.valid
  cursor := by
    rw [h.ticks.next, h.ticks.acked]
    exact ⟨0, .nil, Nat.le_refl _, Nat.zero_le _, List.nil_prefix⟩
  acked := by
    rw [h.ticks.acked]
    exact fun id hid => absurd hid List.not_mem_nil
  pending id := iff_of_false (not_not_intro (h.ticks.pending id)) List.not_mem_nil
  cache := by
    rw [h.ticks.acked]
    exact cached_nil h.price_cache
  windows := by
    rw [h.ticks.acked]
    exact windowed_nil h.price_history
  fits hne := absurd h.ticks.acked (by simpa using hne)

/-- What is acknowledged or in hand is on the stream. -/
theorem Reading.on_stream (h : Reading loads config k k' entries w) (m : Nat) :
    ∀ id ∈ w.ticks.acked ++ (entries.map Prod.fst).take m, 0 < id ∧ id ≤ w.ticks.log.length := by
  obtain ⟨n, hdel, -, hlen, hpre⟩ := h.cursor
  intro id hid
  rcases List.mem_append.mp hid with hid | hid
  · exact ⟨hdel.pos id hid, h.acked id hid⟩
  · obtain ⟨e, he, rfl⟩ := List.mem_map.mp (List.mem_of_mem_take hid)
    obtain ⟨hlt, hget⟩ := StreamLog.mem_after.mp (hpre.subset he)
    obtain ⟨hlt', -⟩ := List.getElem?_eq_some_iff.mp hget
    omega

theorem Wedged.unlessPending (h : Wedged loads config w) : RestingUnlessPending loads config w := by
  obtain ⟨id, hid⟩ := h.pending
  exact fun hnone => absurd (hnone id) hid

theorem Settled.unlessPending (h : Settled loads config w) : RestingUnlessPending loads config w := by
  rcases h with h | h
  · exact fun _ => h
  · exact h.unlessPending

/-- A tick in hand keeps the worker from crashing. -/
theorem Reading.unlessPending (h : Reading loads config k k' (e :: entries) w) :
    RestingUnlessPending loads config w := fun hnone =>
  absurd (hnone e.1) ((h.pending e.1).mpr (List.mem_cons_self ..))

/-- The ticks group and both price tables. -/
structure SamePriceTables (w w' : RiskWorld F) : Prop extends SameTicks w w' where
  history : w'.store.price_history = w.store.price_history

theorem Reading.same (h : Reading loads config k k' entries w) (hw : SamePriceTables w w') :
    Reading loads config k k' entries w' where
  valid := hw.ticks ▸ h.valid
  cursor := hw.ticks ▸ h.cursor
  acked := hw.ticks ▸ h.acked
  pending := hw.ticks ▸ h.pending
  cache y := by
    rw [RiskStore.getPrice, hw.cache, hw.ticks]
    exact h.cache y
  windows y := by
    rw [RiskStore.priceWindow, hw.history, hw.ticks]
    exact h.windows y
  fits := hw.ticks ▸ h.fits

theorem Settled.same (h : Settled loads config w) (hw : SamePriceTables w w') :
    Settled loads config w' := by
  rcases h with h | h
  · exact .inl (h.same hw)
  · exact .inr ⟨hw.ticks ▸ h.valid, hw.ticks ▸ h.pending, h.refused⟩

theorem Reading.add (h : Reading loads config k k' entries w) {fields : Fields}
    (hf : TickValid (envelope loads fields)) :
    Reading loads config k k' entries (riskEnv (.addTick fields) w) where
  valid f hmem := by
    rcases List.mem_append.mp hmem with hmem | hmem
    · exact h.valid f hmem
    · exact List.mem_singleton.mp hmem ▸ hf
  cursor := by
    obtain ⟨n, hdel, hnext, hlen, hpre⟩ := h.cursor
    refine ⟨n, hdel, hnext, ?_, hpre.trans (StreamLog.after_mono (List.prefix_append ..) ?_)⟩
    · exact hlen.trans (List.prefix_append w.ticks.log [fields]).length_le
    · omega
  acked id hid := (h.acked id hid).trans (List.prefix_append w.ticks.log [fields]).length_le
  pending := h.pending
  cache := h.cache.grow (List.prefix_append ..) (h.on_stream k)
  windows := h.windows.grow (List.prefix_append ..) (h.on_stream k')
  fits := h.fits

theorem Reading.putBack (h : Reading loads config k k' entries w) {n : Nat}
    (hn : n ≤ w.ticks.next) :
    Reading loads config k k' entries (riskEnv (.setId .ticks n) w) where
  valid := h.valid
  cursor := by
    obtain ⟨m, hdel, hnext, hrest⟩ := h.cursor
    exact ⟨m, hdel, hn.trans hnext, hrest⟩
  acked := h.acked
  pending := h.pending
  cache := h.cache
  windows := h.windows
  fits := h.fits

variable (config k k' entries) in
theorem reading_stable : Stable (worker loads config) (replaying loads)
    (Reading loads config k k' entries) := by
  intro w e w' h hg hx
  obtain ⟨hvalid, hback⟩ := hg
  cases hx
  cases e with
  | addTick fields => exact h.add hvalid
  | setId s n =>
    cases s with
    | ledger => exact h.same ⟨⟨rfl, rfl⟩, rfl⟩
    | ticks => exact h.putBack hback
  | addLedger fields => exact h.same ⟨⟨rfl, rfl⟩, rfl⟩
  | elapse d => exact ⟨h.valid, h.cursor, h.acked, h.pending, h.cache, h.windows, h.fits⟩

omit [PyFloat F] in
/-- What else happens leaves every tick in hand. -/
theorem pending_env (e : RiskEnv) (w : RiskWorld F) {id : Nat} (h : w.ticks.pending id ≠ none) :
    (riskEnv e w).ticks.pending id ≠ none := by
  cases e with
  | setId s n => cases s <;> exact h
  | _ => exact h

variable (config) in
theorem wedged_stable : Stable (worker loads config) (replaying loads) (Wedged loads config) := by
  intro w e w' h hg hx
  cases hx
  obtain ⟨id, hid⟩ := h.pending
  refine ⟨?_, ⟨id, pending_env e w hid⟩, h.refused⟩
  cases e with
  | addTick fields =>
    intro f hmem
    rcases List.mem_append.mp hmem with hmem | hmem
    · exact h.valid f hmem
    · exact List.mem_singleton.mp hmem ▸ hg.1
  | setId s n => cases s <;> exact h.valid
  | _ => exact h.valid

variable (config) in
theorem settled_stable : Stable (worker loads config) (replaying loads) (Settled loads config) := by
  intro w e w' h hg hx
  rcases h with h | h
  · exact .inl (reading_stable config 0 0 [] w e w' h hg hx)
  · exact .inr (wedged_stable config w e w' h hg hx)

/-- The calls that move the ticks group or a price table. -/
def RiskCall.onPrices : RiskCall F → Bool
  | .appendPrice _ _ _ _ => true
  | i => i.onTicks

/-- A call that leaves them alone. -/
def OffPrices (i : RiskCall F) : Prop := i.onPrices = false

theorem prices_frame {i : RiskCall F} (hi : OffPrices i) {o : RiskChoice F}
    {r : Except PyError i.Result} (h : riskExec i o w = some (r, w')) : SamePriceTables w w' := by
  have hticks : OffTicks i := by
    cases i with
    | appendPrice y p n t => cases hi
    | _ => exact hi
  refine ⟨ticks_frame hticks h, ?_⟩
  rcases exec_effect h with rfl | rfl
  · rfl
  cases i with
  | xreadgroup s n => cases s <;> rfl
  | xack s id => cases s <;> rfl
  | upsertPrice y p => cases hi
  | appendPrice y p n t => cases hi
  | appendPv a v n t => exact wrote_frame _ fun _ _ h => by rw [RiskStore.appendPv_only h]
  | applyLedgerEvent e =>
    exact wrote_frame _ fun _ _ h => by rw [RiskStore.applyLedgerEvent_only h]
  | saveRiskSnapshot a m t =>
    exact wrote_frame _ fun _ _ h => by rw [RiskStore.saveRiskSnapshot_only h]
  | _ => rfl

end Reading

/-! ## The worker -/

section Worker

variable {β : Type} {w : RiskWorld F} {e : Nat × Fields} {rest : List (Nat × Fields)}

variable (loads config) in
/-- `Safe` for the worker, which ends at rest or wedged. -/
abbrev RestSafe (p : RiskM F β) (w : RiskWorld F) : Prop :=
  Safe (worker loads config) (replaying loads) (RestingUnlessPending loads config)
    (fun _ => Settled loads config) p w

theorem Reading.tickAt {k k' id : Nat} {fields : Fields}
    (h : Reading loads config k k' ((id, fields) :: rest) w) :
    (tickAt loads w.ticks.log id : Option (String × F)) = tickEntry loads fields := by
  obtain ⟨n, -, -, -, hpre⟩ := h.cursor
  obtain ⟨rfl, hget, -⟩ := StreamLog.prefix_after_cons hpre
  rw [Risk.tickAt, Nat.add_sub_cancel, hget]
  rfl

/-- The price of the first tick in hand goes into the cache. -/
theorem Reading.upsert {id : Nat} {fields : Fields} {y : String} {p : F} {store : RiskStore F}
    (h : Reading loads config 0 0 ((id, fields) :: rest) w)
    (hentry : tickEntry loads fields = some (y, p)) (hp : PyFloat.isNaN p = false)
    (hup : w.store.upsertPrice (.str y) p = .ok ((), store)) :
    Reading loads config 1 0 ((id, fields) :: rest) { w with store } where
  valid := h.valid
  cursor := h.cursor
  acked := h.acked
  pending := h.pending
  cache := by
    have hcache := h.cache
    rw [List.take_zero, List.append_nil] at hcache
    exact hcache.upsert (h.tickAt.trans hentry) hp hup
  windows z := by
    rw [RiskStore.upsertPrice_only hup]
    exact h.windows z
  fits := h.fits

/-- And to the end of its window. -/
theorem Reading.append {id : Nat} {fields : Fields} {y time : String} {p : F}
    {store : RiskStore F} (h : Reading loads config 1 0 ((id, fields) :: rest) w)
    (hentry : tickEntry loads fields = some (y, p)) (hp : PyFloat.isNaN p = false)
    (happ : RiskStore.committed
      (w.store.appendPrice (.str y) p config.window_size (.str time)) = .ok ((), store)) :
    Reading loads config 1 1 ((id, fields) :: rest) { w with store } where
  valid := h.valid
  cursor := h.cursor
  acked := h.acked
  pending := h.pending
  cache z := by
    rw [RiskStore.appendPrice_only happ]
    exact h.cache z
  windows := by
    have hwindows := h.windows
    rw [List.take_zero, List.append_nil] at hwindows
    exact hwindows.append (h.tickAt.trans hentry) hp happ
  fits _ := (w.store.appendPrice_some happ).1

/-- Then it is acknowledged. -/
theorem Reading.ack (h : Reading loads config 1 1 (e :: rest) w) :
    Reading loads config 0 0 rest { w with ticks := w.ticks.ack e.1 } where
  valid := h.valid
  cursor := by
    obtain ⟨n, hdel, hnext, hlen, hpre⟩ := h.cursor
    obtain ⟨id, fields⟩ := e
    obtain ⟨rfl, -, hrest⟩ := StreamLog.prefix_after_cons hpre
    rw [List.length_cons] at hnext hlen
    exact ⟨n + 1, hdel.read, by show w.ticks.next ≤ _; omega, by show _ ≤ w.ticks.log.length; omega,
      hrest⟩
  acked id hid := by
    have hmem := h.on_stream 1 id
    exact (hmem hid).2
  pending id := by
    obtain ⟨n, -, -, -, hpre⟩ := h.cursor
    have hsorted := (StreamLog.after_pairwise w.ticks.log n).sublist hpre.sublist
    have hpend := h.pending id
    rw [List.map_cons, List.mem_cons] at hpend
    by_cases hid : id = e.1
    · refine iff_of_false (not_not_intro (if_pos hid)) fun hmem => ?_
      obtain ⟨e', he', rfl⟩ := List.mem_map.mp hmem
      exact absurd hid.symm ((List.pairwise_cons.mp hsorted).1 e' he').ne
    · show (if id = e.1 then none else w.ticks.pending id) ≠ none ↔ _
      rw [if_neg hid, hpend, or_iff_right hid]
  cache := by
    rw [List.take_zero, List.append_nil]
    exact h.cache
  windows := by
    rw [List.take_zero, List.append_nil]
    exact h.windows
  fits _ := h.fits (by simp)

/-- A tick in hand that the windows do not take. -/
theorem Reading.wedged {k k' : Nat} (h : Reading loads config k k' (e :: rest) w)
    (hlarge : ¬ config.window_size < 2 ^ 63 - 1) : Wedged loads config w :=
  ⟨h.valid, ⟨e.1, (h.pending e.1).mpr (List.mem_cons_self ..)⟩, hlarge⟩

/-- Both tables take up a tick in hand, or the window is refused. -/
theorem handleTick_reads (h : Reading loads config 0 0 (e :: rest) w) :
    Safe (worker loads config) (replaying loads) (RestingUnlessPending loads config)
      (fun r w => match r with
        | .ok _ => Reading loads config 1 1 (e :: rest) w
        | .error _ => Wedged loads config w) (handleTick loads config e.2) w := by
  obtain ⟨id, fields⟩ := e
  obtain ⟨n, -, -, -, hpre⟩ := h.cursor
  obtain ⟨-, hget, -⟩ := StreamLog.prefix_after_cons hpre
  obtain ⟨y, p, t, hentry, hnan, heq⟩ :=
    (h.valid fields (List.mem_of_getElem? hget)).handleTick config
  have hy : (Json.str y : Json F).bindText = .ok (some y) := rfl
  have ht : (Json.str t : Json F).bindText = .ok (some t) := rfl
  rw [heq, recordTick, Prog.bind_assoc]
  refine Safe.perform (reading_stable config 0 0 _) (fun _ h => h.unlessPending) ?_ ?_ h
  · intro w o u w' hw _ hx
    obtain ⟨r, store, hup, -, rfl⟩ | ⟨_, _, hr, _⟩ := stored_some hx
    · rw [Prog.bind_assoc]
      refine Safe.perform (reading_stable config 1 0 _) (fun _ h => h.unlessPending) ?_ ?_
        (hw.upsert hentry hnan hup)
      · intro w o u w' hw _ hx
        obtain ⟨r, store, happ, -, rfl⟩ | ⟨_, _, hr, _⟩ := stored_some hx
        · exact Safe.ret (reading_stable config 1 1 _) (fun _ h => h.unlessPending)
            (fun _ h => h) (hw.append hentry hnan happ)
        · cases hr
      · intro w o e w' hw _ hx
        obtain ⟨_, _, _, hr, _⟩ | ⟨e', happ, -, rfl⟩ := stored_some hx
        · cases hr
        · have hlarge : ¬ config.window_size < 2 ^ 63 - 1 := by
            intro hsmall
            obtain ⟨s, hok, -⟩ := w'.store.appendPrice_ok hsmall (RiskStore.priceRow_ok hy ht hnan)
            rw [hok] at happ
            cases happ
          exact Safe.raise (wedged_stable config) (fun _ h => h.unlessPending) (fun _ h => h)
            (hw.wedged hlarge)
    · cases hr
  · intro w o e w' hw _ hx
    obtain ⟨_, _, _, hr, _⟩ | ⟨e', hup, -, -⟩ := stored_some hx
    · cases hr
    · obtain ⟨s, hok, -⟩ := w.store.upsertPrice_ok hy hnan
      rw [hok] at hup
      cases hup

theorem refreshTicks_reads (entries : List (Nat × Fields)) :
    ∀ (n : Int) (w : RiskWorld F), Reading loads config 0 0 entries w →
      RestSafe loads config (refreshTicks loads config entries n) w := by
  induction entries with
  | nil =>
    exact fun n w h => Safe.ret (settled_stable config) (fun _ h => h.unlessPending)
      (fun _ h => h) (.inl h)
  | cons e rest ih =>
    intro n w h
    refine Safe.bind ((handleTick_reads h).mono fun r w hw => ?_)
    cases r with
    | error e => exact .inr hw
    | ok _ =>
      refine Safe.perform (reading_stable config 1 1 _) (fun _ h => h.unlessPending) ?_ ?_ hw
      · intro w o r w' hw _ hx
        obtain ⟨-, rfl⟩ | ⟨⟨_, hr⟩, -⟩ := redis_some hx
        · exact ih (n + 1) _ hw.ack
        · cases hr
      · intro w o e w' hw hg hx
        have hanswers := hg rfl
        cases o <;> cases hx <;> cases hanswers

theorem Wedged.wrote {α : Type} (h : Wedged loads config w) (x : Except PyError (α × RiskStore F)) :
    Wedged loads config (w.wrote x) := by
  have hticks := ticks_wrote w x
  exact ⟨hticks ▸ h.valid, hticks ▸ h.pending, h.refused⟩

/-- Where the window is refused, every tick raises. -/
theorem handleTick_wedged {fields : Fields} (hf : TickValid (envelope loads fields))
    (h : Wedged loads config w) :
    Safe (worker loads config) (replaying loads) (RestingUnlessPending loads config)
      (fun r w => match r with
        | .ok _ => False
        | .error _ => Wedged loads config w) (handleTick loads config fields) w := by
  obtain ⟨y, p, t, -, -, heq⟩ := hf.handleTick config
  rw [heq, recordTick, Prog.bind_assoc]
  refine Safe.perform (wedged_stable config) (fun _ h => h.unlessPending) ?_ ?_ h
  · intro w o u w' hw _ hx
    rw [Prog.bind_assoc]
    refine Safe.perform (wedged_stable config) (fun _ h => h.unlessPending) ?_ ?_
      (stored_effect hx ▸ hw.wrote _)
    · intro w o u w' hw _ hx
      obtain ⟨r, store, happ, -, -⟩ | ⟨_, _, hr, _⟩ := stored_some hx
      · exact absurd (w.store.appendPrice_some happ).1 hw.refused
      · cases hr
    · intro w o err w' hw _ hx
      exact Safe.raise (wedged_stable config) (fun _ h => h.unlessPending) (fun _ h => h)
        (stored_effect hx ▸ hw.wrote _)
  · intro w o err w' hw _ hx
    exact Safe.raise (wedged_stable config) (fun _ h => h.unlessPending) (fun _ h => h)
      (stored_effect hx ▸ hw.wrote _)

theorem refreshTicks_wedged (entries : List (Nat × Fields))
    (hvalid : ∀ e ∈ entries, TickValid (envelope loads e.2)) (n : Int)
    (h : Wedged loads config w) :
    RestSafe loads config (refreshTicks loads config entries n) w := by
  cases entries with
  | nil =>
    exact Safe.ret (settled_stable config) (fun _ h => h.unlessPending) (fun _ h => h) (.inr h)
  | cons e rest =>
    refine Safe.bind ((handleTick_wedged (hvalid e (List.mem_cons_self ..)) h).mono fun r w hw => ?_)
    cases r with
    | error err => exact .inr hw
    | ok _ => exact hw.elim

/-- What is read next is in hand. -/
theorem Reading.readgroup (h : Resting loads config w) (count : Nat) :
    Reading loads config 0 0 (w.ticks.unread count)
      { w with ticks := w.ticks.readgroup count } where
  valid := h.valid
  cursor := by
    obtain ⟨n, hdel, hnext, hlen, -⟩ := h.cursor
    have hunread : (w.ticks.unread count).length ≤ w.ticks.log.length - w.ticks.next := by
      rw [ConsumerGroup.unread, List.length_take, StreamLog.length_after]
      exact Nat.min_le_right ..
    rw [List.length_nil] at hnext hlen
    refine ⟨w.ticks.next, hdel.reset hnext, Nat.le_refl _, ?_, List.take_prefix ..⟩
    show _ ≤ w.ticks.log.length
    omega
  acked := h.acked
  pending id := by
    simp only [ConsumerGroup.readgroup, ConsumerGroup.deliver]
    split
    · rename_i hid
      exact iff_of_true (Option.some_ne_none _) hid
    · rename_i hid
      exact iff_of_false (fun hpend => absurd ((h.pending id).mp hpend) List.not_mem_nil) hid
  cache := by
    have hcache := h.cache
    rw [List.map_nil, List.take_zero] at hcache
    exact hcache
  windows := h.windows
  fits := h.fits

/-- A tick in hand stays there when more are read. -/
theorem Wedged.readgroup (h : Wedged loads config w) (count : Nat) :
    Wedged loads config { w with ticks := w.ticks.readgroup count } := by
  obtain ⟨id, hid⟩ := h.pending
  exact ⟨h.valid, ⟨id, ConsumerGroup.pending_readgroup hid count⟩, h.refused⟩

theorem refreshPrices_reads (h : Settled loads config w) :
    RestSafe loads config (refreshPrices loads config) w := by
  refine Safe.perform (settled_stable config) (fun _ h => h.unlessPending) ?_ ?_ h
  · intro w o r w' hw _ hx
    simp only [worker, riskExec] at hx
    split at hx
    · obtain ⟨hr, rfl⟩ | ⟨⟨_, hr⟩, -⟩ := redis_some hx
      · cases hr
        rcases hw with hw | hw
        · exact refreshTicks_reads _ 0 _ (Reading.readgroup hw _)
        · refine refreshTicks_wedged _ (fun e he => ?_) 0 (hw.readgroup _)
          have horder := w.ticks.inOrder_unread config.batch_size.toNat
          exact hw.valid e.2 (List.mem_of_getElem? (horder.getElem? he).2)
      · cases hr
    · cases hx
  · intro w o e w' hw hg hx
    refine Safe.raise (settled_stable config) (fun _ h => h.unlessPending) (fun _ h => h) ?_
    simp only [worker, riskExec] at hx
    split at hx
    · have hanswers := hg rfl
      cases o <;> cases hx <;> cases hanswers
    · cases hx
      exact hw

theorem reads_quiet {p : RiskM F β} (hp : p.Only OffPrices) (h : Settled loads config w) :
    RestSafe loads config p w :=
  Safe.only (settled_stable config) (fun _ h => h.unlessPending)
    (fun _ _ _ _ _ hi hw _ hx => hw.same (prices_frame hi hx)) (fun _ _ h => h) hp h

omit [PyFloat F] in
theorem builds_offPrices : Builds (OffPrices (F := F)) :=
  ⟨rfl, rfl, rfl, fun _ _ _ => rfl, fun _ => rfl⟩

theorem cycle_reads (h : Settled loads config w) :
    RestSafe loads config (cycle loads config) w := by
  have hreclaim : (reclaimLedger loads config).Only OffPrices :=
    builds_offPrices.reclaimLedger (fun _ => rfl) (fun _ _ => rfl) fun _ => rfl
  have hdrain : (drainLedger loads config).Only OffPrices :=
    builds_offPrices.drainLedger (fun _ => rfl) (fun _ => rfl) fun _ => rfl
  refine Safe.bind ((reads_quiet hreclaim h).mono fun r w hw => ?_)
  cases r with
  | error e => exact hw
  | ok _ =>
    refine Safe.bind ((refreshPrices_reads hw).mono fun r w hw => ?_)
    cases r with
    | error e => exact hw
    | ok _ => exact reads_quiet hdrain hw

variable (loads config) in
theorem reads_proof : Proof (worker loads config) (replaying loads) (Settled loads config)
    (RestingUnlessPending loads config) (fun _ => Settled loads config) where
  enter c w h _ := by
    cases c with
    | cycle => exact cycle_reads h
    | maybeRecompute now =>
      exact reads_quiet (builds_offPrices.maybeRecompute (fun _ _ _ _ => rfl) rfl rfl
        (fun _ => rfl) now) h
  leave _ _ h := h
  crash w h hg := .inl ((h hg).same ⟨⟨rfl, rfl⟩, rfl⟩)
  idle_crash w h _ := h.same ⟨⟨rfl, rfl⟩, rfl⟩
  idle_env := settled_stable config

end Worker

/-! ## Each tick once -/

section Once

variable {log : List Fields} {supply : Supply F} {n : Nat} {w : RiskWorld F}

variable (config supply n w) in
theorem calmly_handleTick_valid {fields : Fields} (h : TickValid (envelope loads fields))
    (hw : config.window_size < 2 ^ 63 - 1) : ∃ y p time s w',
      tickEntry loads fields = some (y, p) ∧ PyFloat.isNaN p = false ∧
      w.store.upsertPrice (.str y) p = .ok ((), s) ∧ RiskStore.committed
        (s.appendPrice (.str y) p config.window_size (.str time)) = .ok ((), w'.store) ∧
      calmly supply (handleTick loads config fields) (w, n) = (.ok (), w', n + 1 + 1) := by
  obtain ⟨y, p, time, hentry, hnan, heq⟩ := h.handleTick config
  have hy : (Json.str y : Json F).bindText = .ok (some y) := rfl
  have ht : (Json.str time : Json F).bindText = .ok (some time) := rfl
  obtain ⟨s₁, h₁, -⟩ := w.store.upsertPrice_ok hy hnan
  obtain ⟨s₂, h₂, -⟩ := s₁.appendPrice_ok hw (RiskStore.priceRow_ok hy ht hnan)
  refine ⟨y, p, time, s₁, { w with store := s₂ }, hentry, hnan, h₁, h₂, ?_⟩
  rw [heq, calmly]
  refine Prog.eval_bind_ok (a := true) ?_
  rw [recordTick, Prog.eval_bind_ok (calmly_upsert h₁)]
  exact Prog.eval_bind_ok (calmly_perform
    (i := .appendPrice (.str y) p config.window_size (.str time)) (stored_ok h₂))

theorem takenOnce_snoc (w : RiskWorld F × Nat) (log : List Fields) (fields : Fields) :
    takenOnce loads config supply w (log ++ [fields]) =
      (calmly supply (handleTick loads config fields) (takenOnce loads config supply w log)).2 := by
  rw [takenOnce, List.foldl_append]
  rfl

variable (config supply n) in
theorem takenOnce_tables (hvalid : ∀ fields ∈ log, TickValid (envelope loads fields))
    (hfits : log ≠ [] → config.window_size < 2 ^ 63 - 1)
    (hcache : w.store.price_cache = []) (hhistory : w.store.price_history = []) :
    ∀ k ≤ log.length,
      Cached loads log (once k) (takenOnce loads config supply (w, n) (log.take k)).1.store ∧
      Windowed loads config log (once k)
        (takenOnce loads config supply (w, n) (log.take k)).1.store := by
  intro k
  induction k with
  | zero => exact fun _ => ⟨cached_nil hcache, windowed_nil hhistory⟩
  | succ k ih =>
    intro hk
    obtain ⟨hc, hw⟩ := ih (Nat.le_of_succ_le hk)
    have hlt : k < log.length := hk
    have ht : tickAt loads log (k + 1) = (tickEntry loads log[k] : Option (String × F)) := by
      rw [tickAt, Nat.add_sub_cancel, List.getElem?_eq_getElem hlt]
      rfl
    rw [List.take_succ_eq_append_getElem hlt, takenOnce_snoc, once_succ]
    generalize takenOnce loads config supply (w, n) (log.take k) = taken at hc hw ⊢
    obtain ⟨w, n⟩ := taken
    obtain ⟨y, p, time, s, w', hentry, hnan, hup, happ, heval⟩ :=
      calmly_handleTick_valid config supply n w (hvalid log[k] (List.getElem_mem hlt))
        (hfits (List.ne_nil_of_length_pos (Nat.zero_lt_of_lt hlt)))
    rw [heval]
    have hwindows : Windowed loads config log (once k) s := by
      intro z
      rw [RiskStore.upsertPrice_only hup]
      exact hw z
    refine ⟨?_, hwindows.append (ht.trans hentry) hnan happ⟩
    intro z
    rw [RiskStore.appendPrice_only happ]
    exact hc.upsert (ht.trans hentry) hnan hup z

end Once

/-! ## What a replay leaves -/

section Replay

variable {log : List Fields} {s : RiskStore F}

theorem isTickOf_iff {y : String} {id : Nat} : isTickOf (F := F) loads log y id = true ↔
    (tickAt loads log id : Option (String × F)) = some (y, priceAt loads log id) := by
  rw [isTickOf, priceAt]
  cases tickAt loads log id with
  | none => exact iff_of_false nofun nofun
  | some t =>
    obtain ⟨z, p⟩ := t
    simp

/-- Distinct prices tell the ticks of a symbol apart. -/
theorem DistinctPrices.injective (h : DistinctPrices (F := F) loads log) {y : String} {i j : Nat}
    (hi : isTickOf (F := F) loads log y i = true) (hj : isTickOf (F := F) loads log y j = true)
    (hipos : 0 < i) (hjpos : 0 < j)
    (hprice : (priceAt loads log i : F) = priceAt loads log j) : i = j := by
  rw [isTickOf_iff] at hi hj
  rw [← hprice] at hj
  obtain ⟨f, hf, hfi⟩ := Option.bind_eq_some_iff.mp hi
  obtain ⟨f', hf', hfj⟩ := Option.bind_eq_some_iff.mp hj
  have hget : (log.map (tickEntry (F := F) loads))[i - 1]? =
      (log.map (tickEntry loads))[j - 1]? := by
    rw [List.getElem?_map, List.getElem?_map, hf, hf', Option.map_some, Option.map_some, hfi, hfj]
  have hlt : i - 1 < (log.map (tickEntry (F := F) loads)).length := by
    rw [List.length_map]
    exact (List.getElem?_eq_some_iff.mp hf).1
  have heq := (List.getElem?_inj hlt h).mp hget
  omega

theorem map_inj {α β : Type} {f : α → β} {xs ys : List α} (hmap : xs.map f = ys.map f)
    (hinj : ∀ x ∈ xs, ∀ y ∈ ys, f x = f y → x = y) : xs = ys := by
  induction xs generalizing ys with
  | nil => exact (List.map_eq_nil_iff.mp hmap.symm).symm
  | cons x xs ih =>
    cases ys with
    | nil => cases hmap
    | cons y ys =>
      rw [List.map_cons, List.map_cons, List.cons.injEq] at hmap
      rw [hinj x List.mem_cons_self y List.mem_cons_self hmap.1, ih hmap.2 fun x hx y hy =>
        hinj x (List.mem_cons_of_mem _ hx) y (List.mem_cons_of_mem _ hy)]

/-- A group at the end of its stream, and what the tables hold. -/
theorem Reading.atEnd {w : RiskWorld F} (h : Resting loads config w) (hend : ReadToEnd w.ticks) :
    Redelivered w.ticks.log.length w.ticks.acked ∧ Cached loads w.ticks.log w.ticks.acked w.store ∧
      Windowed loads config w.ticks.log w.ticks.acked w.store := by
  obtain ⟨n, hdel, hnext, hlen, -⟩ := h.cursor
  have hcache := h.cache
  have hwindows := h.windows
  rw [List.take_zero, List.append_nil] at hcache hwindows
  rw [List.length_nil] at hnext hlen
  have hn : n = w.ticks.log.length := by
    have hlog := hend.next
    omega
  exact ⟨hn ▸ hdel, hcache, hwindows⟩

variable {w : RiskWorld F} {y : String}

/-- A stream that was read to its end was taken by the windows. -/
theorem Reading.fits_of_end (h : Resting loads config w) (hend : ReadToEnd w.ticks)
    (hne : w.ticks.log ≠ []) : config.window_size < 2 ^ 63 - 1 := by
  refine h.fits (List.append_ne_nil_of_left_ne_nil ?_ _)
  have hfirst : 1 ∈ w.ticks.acked :=
    (h.atEnd hend).1.mem Nat.one_pos (List.length_pos_iff.mpr hne)
  exact List.ne_nil_of_mem hfirst

/-- The cache is right after any replay. -/
theorem price_replayed (hw : Resting loads config w) (hend : ReadToEnd w.ticks)
    (hs : Cached loads w.ticks.log (once w.ticks.log.length) s) :
    w.store.getPrice y = s.getPrice y := by
  obtain ⟨hdel, hcache, -⟩ := hw.atEnd hend
  rw [hcache y, hs y, hdel.getLast?_filter hw.acked]

/-- A window is right where its ticks end in order. -/
theorem window_replayed (hw : Resting loads config w) (hend : ReadToEnd w.ticks)
    (hs : Windowed loads config w.ticks.log (once w.ticks.log.length) s)
    (horder : EndsInOrder loads config w.ticks y) :
    w.store.priceWindow y = s.priceWindow y := by
  obtain ⟨hdel, -, hwindows⟩ := hw.atEnd hend
  have hlast := (hdel.rtake_filter_iff hw.acked (isTickOf loads w.ticks.log y)
    (RiskStore.kept config.window_size)).mp horder
  rw [hwindows y, hs y, ← RiskStore.lastN_map, ← RiskStore.lastN_map]
  exact congrArg _ hlast

/-- And only there, where the prices tell. -/
theorem endsInOrder_of_window (hw : Resting loads config w) (hend : ReadToEnd w.ticks)
    (hs : Windowed loads config w.ticks.log (once w.ticks.log.length) s)
    (hprices : DistinctPrices (F := F) loads w.ticks.log)
    (hwindow : w.store.priceWindow y = s.priceWindow y) : EndsInOrder loads config w.ticks y := by
  obtain ⟨hdel, -, hwindows⟩ := hw.atEnd hend
  rw [hwindows y, hs y, ← RiskStore.lastN_map, ← RiskStore.lastN_map] at hwindow
  refine (hdel.rtake_filter_iff hw.acked (isTickOf loads w.ticks.log y)
    (RiskStore.kept config.window_size)).mpr (map_inj hwindow fun i hi j hj => ?_)
  obtain ⟨hread, hi⟩ := List.mem_filter.mp (List.mem_of_mem_drop hi)
  obtain ⟨honce, hj⟩ := List.mem_filter.mp (List.mem_of_mem_drop hj)
  exact hprices.injective hi hj (hdel.pos i hread) (mem_once.mp honce).1

/-- **Replay and prices.** However often the cursor was put back, at the end of
the stream the cached prices are those of every tick taken up once. So are the
windows and the returns if each symbol's ticks end in order; if they do not, a
window is another one, unless prices repeat. -/
theorem replay_keeps_prices {s : WorkerState F}
    (h : Reach (step (worker loads config)) (replaying loads).ok (idle (FreshTicks loads)) s)
    (hend : ReadToEnd s.world.ticks) (supply : Supply F) (n : Nat) (w₀ : RiskWorld F)
    (hw₀ : w₀.store.price_cache = [] ∧ w₀.store.price_history = []) :
    let inOrder := (takenOnce loads config supply (w₀, n) s.world.ticks.log).1.store
    (∀ y, s.world.store.getPrice y = inOrder.getPrice y) ∧
      ((∀ y, EndsInOrder loads config s.world.ticks y) → SamePrices s.world.store inOrder) ∧
      (DistinctPrices (F := F) loads s.world.ticks.log → SamePrices s.world.store inOrder →
        ∀ y, EndsInOrder loads config s.world.ticks y) := by
  have hreach : Reach (step (worker loads config)) (replaying loads).ok
      (idle (Settled loads config)) s :=
    h.mono (fun _ hs => ⟨.inl hs.1.resting, hs.2⟩) fun _ _ hok => hok
  have hrest : Resting loads config s.world :=
    (reads_proof loads config).always (fun _ h => h.unlessPending) (fun _ h => h) hreach hend.pending
  obtain ⟨hcache, hwindows⟩ := takenOnce_tables config supply n hrest.valid
    (hrest.fits_of_end hend) hw₀.1 hw₀.2 _
    (Nat.le_refl s.world.ticks.log.length)
  rw [List.take_length] at hcache hwindows
  have hprice := fun y => price_replayed (y := y) hrest hend hcache
  refine ⟨hprice, ?_, ?_⟩
  · intro horder
    have hwindow := fun y => window_replayed hrest hend hwindows (horder y)
    exact ⟨hprice, hwindow, fun y => congrArg RiskStore.simpleReturns (hwindow y)⟩
  · intro hprices hsame y
    exact endsInOrder_of_window hrest hend hwindows hprices (hsame.window y)

end Replay

/-! ## Two ticks, read twice -/

def priceText (price : Int) : String :=
  object [("data", object [("symbol", quoted "X"), ("price", toString price),
    ("tick_time", quoted "2026-09-01T12:00:00Z")])]

def priceJson (price : Int) : Json ℚ :=
  .obj [("data", .obj [("symbol", .str "X"), ("price", .int price),
    ("tick_time", .str "2026-09-01T12:00:00Z")])]

def priceLoads : String → Except PyError (Json ℚ) :=
  table ([1, 2].map fun price => (priceText price, priceJson price))

def twoPrices : List Fields := [1, 2].map fun price => [("event", priceText price)]

def twoTicks : RiskWorld ℚ :=
  { worldOf [] with ticks := ⟨twoPrices, 0, fun _ => none, 0, []⟩ }

def RiskEnv.rereads : RiskEnv → RiskWorld ℚ → Bool
  | .setId .ticks n, w => n ≤ w.ticks.next
  | _, _ => false

/-- Nothing happens but passes of the worker and resets of the ticks group. -/
def rereading : WorkerGuard ℚ where
  enter _ _ := True
  call _ o _ := o.answers
  crash _ := False
  env e w := e.rereads w

instance (c : WorkerCall ℚ) (w : RiskWorld ℚ) : Decidable (rereading.enter c w) := .isTrue trivial
instance (i : RiskCall ℚ) (o : RiskChoice ℚ) (w : RiskWorld ℚ) :
    Decidable (rereading.call i o w) := inferInstanceAs (Decidable (o.answers = true))
instance (w : RiskWorld ℚ) : Decidable (rereading.crash w) := .isFalse id
instance (e : RiskEnv) (w : RiskWorld ℚ) : Decidable (rereading.env e w) :=
  inferInstanceAs (Decidable (e.rereads w = true))

theorem replaying_of_rereading (loads : String → Except PyError (Json ℚ)) {s : WorkerState ℚ}
    {a : WorkerAct ℚ} (h : rereading.ok s a) : (replaying loads).ok s a := by
  refine Guard.ok_mono (G := rereading) (H := replaying loads) (fun _ _ _ => trivial)
    (fun _ _ _ ho _ => ho) (fun _ h => h.elim) (fun e w he => ?_) h
  cases e with
  | setId s n =>
    cases s with
    | ledger => cases he
    | ticks =>
      have hle : n ≤ w.ticks.next := of_decide_eq_true he
      exact ⟨trivial, hle⟩
  | _ => cases he

theorem envelope_price {price : Int} (h : price ∈ [1, 2]) :
    envelope priceLoads [("event", priceText price)] = priceJson price := by
  have hdistinct : (([1, 2] : List Int).map priceText).Nodup := by decide
  exact envelope_text (object_ne_empty _) (by rw [priceLoads, table, lookup_map hdistinct h])

theorem twoTicks_fresh : FreshTicks priceLoads twoTicks where
  ticks := ⟨rfl, fun _ => rfl, rfl⟩
  valid fields hf := by
    obtain ⟨price, hprice, rfl⟩ := List.mem_map.mp hf
    rw [envelope_price hprice]
    exact ⟨⟨_, rfl⟩, ⟨"X", by decide, rfl⟩, rfl, _, rfl⟩
  price_cache := rfl
  price_history := rfl

/-- A cycle that takes up two ticks, and no ledger entry. -/
def twoTicksCycle : List (WorkerAct ℚ) :=
  [.enter .cycle] ++ List.replicate 9 (.call .done) ++ [.leave]

/-- Both ticks, and both again from the start of the stream. -/
def readTwice : List (WorkerAct ℚ) := twoTicksCycle ++ [.env (.setId .ticks 0)] ++ twoTicksCycle

theorem reread (config : Config ℚ) (hw : config.window_size < 2 ^ 63 - 1)
    (p : WorkerState ℚ → Bool)
    (hrun : (run (step (worker priceLoads config)) rereading.ok readTwice ⟨twoTicks, none⟩).any
      (fun s => p s && s.running.isNone && decide (2 ≤ s.world.ticks.next) &&
        s.world.ticks.log = twoPrices) = true) :
    ∃ s : WorkerState ℚ, Reach (step (worker priceLoads config)) (replaying priceLoads).ok
      (idle (FreshTicks priceLoads)) s ∧ ReadToEnd s.world.ticks ∧
        s.world.ticks.log = twoPrices ∧ p s = true := by
  obtain ⟨s, hs, hp⟩ := Reach.exists_of_run (step (worker priceLoads config)) rereading.ok
    (idle (FreshTicks priceLoads)) readTwice _ (s := ⟨twoTicks, none⟩) ⟨twoTicks_fresh, rfl⟩ hrun
  simp only [Bool.and_eq_true, decide_eq_true_eq] at hp
  obtain ⟨⟨⟨hp, hidle⟩, hnext⟩, hlog⟩ := hp
  have hreach := hs.mono (fun _ h => h) fun _ _ => replaying_of_rereading priceLoads
  have hrest : Resting priceLoads config s.world :=
    (reads_proof priceLoads config).between
      (hreach.mono (fun _ hs => ⟨.inl hs.1.resting, hs.2⟩) fun _ _ hok => hok)
      (Option.isNone_iff_eq_none.mp hidle) |>.resolve_right fun hwedged => hwedged.refused hw
  refine ⟨s, hreach, ⟨?_, fun id => ?_⟩, hlog, hp⟩
  · rw [hlog]
    exact hnext
  · exact not_not.mp fun hpend => List.not_mem_nil ((hrest.pending id).mp hpend)

theorem isTickOf_twoPrices (y : String) : ∀ id ∈ [1, 2, 1, 2],
    isTickOf (F := ℚ) priceLoads twoPrices y id = decide ("X" = y) := by
  intro id hid
  have hsymbol : ∀ id ∈ [1, 2, 1, 2],
      (tickAt priceLoads twoPrices id : Option (String × ℚ)).map (·.1) = some "X" := by
    decide +kernel
  obtain ⟨t, ht, hx⟩ := Option.map_eq_some_iff.mp (hsymbol id hid)
  rw [isTickOf, ht, ← hx]
  rfl

/-- Windows of two prices are those of the second reading. -/
theorem replay_keeps_prices_pushedOut : ∃ s : WorkerState ℚ,
    Reach (step (worker priceLoads { settings with window_size := 1 }))
      (replaying priceLoads).ok (idle (FreshTicks priceLoads)) s ∧
    s.world.ticks.acked = [1, 2, 1, 2] ∧ SamePrices s.world.store (takenOnce priceLoads
      { settings with window_size := 1 } sameSupply (twoTicks, 0) s.world.ticks.log).1.store := by
  obtain ⟨s, hreach, hend, hlog, hacked⟩ := reread { settings with window_size := 1 }
    (by decide) (fun s => s.world.ticks.acked = [1, 2, 1, 2]) (by decide +kernel)
  have hacked := of_decide_eq_true hacked
  refine ⟨s, hreach, hacked, ?_⟩
  refine (replay_keeps_prices hreach hend sameSupply 0 twoTicks ⟨rfl, rfl⟩).2.1 fun y => ?_
  rw [EndsInOrder, ticksRead, hacked, hlog, List.filter_congr (isTickOf_twoPrices y)]
  by_cases hy : "X" = y
  · rw [decide_eq_true hy]
    decide
  · rw [decide_eq_false hy]
    decide

/-- Two ticks in a window of 21 prices are there twice. -/
theorem reread_ticks_doubled : ¬ ∀ s : WorkerState ℚ,
    Reach (step (worker priceLoads settings)) (replaying priceLoads).ok
      (idle (FreshTicks priceLoads)) s → ReadToEnd s.world.ticks →
    SamePrices s.world.store
      (takenOnce priceLoads settings sameSupply (twoTicks, 0) s.world.ticks.log).1.store := by
  intro hall
  obtain ⟨s, hreach, hend, hlog, hwindow⟩ := reread settings (by decide)
    (fun s => s.world.store.priceWindow "X" = [1, 2, 1, 2]) (by decide +kernel)
  have hsame := (hall s hreach hend).window "X"
  have honce : (takenOnce priceLoads settings sameSupply
      (twoTicks, 0) twoPrices).1.store.priceWindow "X" = [1, 2] := by decide +kernel
  rw [hlog, honce, of_decide_eq_true hwindow] at hsame
  cases hsame

end TradePulse.Risk
