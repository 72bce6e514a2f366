import TradePulse.Core.ConsumerGroup
import TradePulse.Core.Runs
import TradePulse.Poc.Projection

/-! # The relay and the consumer of the kill/restart proof

One relay process and one consumer process, each of which may be killed between
any two of its steps and started again. A step is one command to Redis or one
transaction on the file. -/
namespace TradePulse.Poc
open TradePulse.Core TradePulse.Core.StreamLog TradePulse.Risk

variable {F : Type} [PyFloat F]

/-- The next step of the relay; `off` before a start, after an exit and after a kill. -/
inductive RelayAt where
  | off
  | select
  | publish (rows : List OutboxEvent)
  | mark (event_id : String) (rows : List OutboxEvent)
  deriving DecidableEq

/-- Where a `for` loop of the consumer is: over new entries or over claimed
ones, with the count of idle polls, the id of the entry and the entries left. -/
structure Loop where
  fresh : Bool
  idle_polls : ℤ
  id : ℕ
  rest : List (ℕ × Fields)

/-- The next step of the consumer; `late` is kept for the proofs: a relay run
had exited with code 0 when nothing new was read. -/
inductive ConsumerAt (F : Type) where
  | off
  | create
  | reclaim (idle_polls : ℤ)
  | handle (fields : Fields) (l : Loop)
  | apply (event : Extracted F) (l : Loop)
  | ack (l : Loop)
  | read (idle_polls : ℤ)
  | poll (idle_polls : ℤ) (late : Bool)

/-- `relayExited` and `consumerExited` are not of the program: a relay run has
exited with code 0, and a consumer run that read once more after that has too. -/
structure World (F : Type) where
  store : ProofStore F
  group : ConsumerGroup Fields
  relay : RelayAt
  consumer : ConsumerAt F
  relayExited : Bool
  consumerExited : Bool

inductive Act where
  | startRelay
  | relay
  | killRelay
  | startConsumer
  | consumer
  | killConsumer
  /-- Time passes. -/
  | tick (d : ℕ)
  deriving DecidableEq

structure ProofArgs where
  min_idle_ms : ℕ
  max_idle_polls : ℤ

section Step

variable (loads : String → Except PyError (Json F)) (repr : Json F → String) (args : ProofArgs)

def relayStep (w : World F) : Option (World F) :=
  match w.relay with
  | .off => none
  | .select => some { w with relay := .publish w.store.unsentOutbox }
  | .publish [] => some { w with relay := .off, relayExited := true }
  | .publish (e :: rows) => match buildStreamFields loads repr e with
    | .ok fields => some { w with group := w.group.add fields, relay := .mark e.event_id rows }
    | .error _ => some { w with relay := .off }
  | .mark event_id rows =>
    some { w with store := w.store.markSent event_id, relay := .publish rows }

/-- The next turn of a `for` loop, or what comes after the loop. -/
def turn (fresh : Bool) (idle_polls : ℤ) : List (ℕ × Fields) → ConsumerAt F
  | [] => if fresh then .reclaim idle_polls else .read idle_polls
  | (id, fields) :: rest => .handle fields ⟨fresh, idle_polls, id, rest⟩

/-- `_handle` up to `apply`; an exception ends the process. -/
def handleStart (store : ProofStore F) (fields : Fields) (l : Loop) : ConsumerAt F :=
  match extract loads fields with
  | .error _ => .off
  | .ok none => .ack l
  | .ok (some event) => match store.alreadyProcessed event.event_id with
    | .error _ => .off
    | .ok true => .ack l
    | .ok false => .apply event l

/-- The group exists from the beginning, at `0`: before it is created nobody asks. -/
def consumerStep (w : World F) : Option (World F) :=
  match w.consumer with
  | .off => none
  | .create => some { w with consumer := .reclaim 0 }
  | .reclaim idle =>
    some { w with group := w.group.autoclaim args.min_idle_ms 100
                  consumer := turn false idle (w.group.claimable args.min_idle_ms 100) }
  | .handle fields l => some { w with consumer := handleStart loads w.store fields l }
  | .apply e l =>
    match w.store.apply e.event_id e.account_id e.symbol e.qty_after e.cash_delta with
    | .ok (_, store) => some { w with store, consumer := .ack l }
    | .error _ => some { w with consumer := .off }
  | .ack l => some { w with group := w.group.ack l.id, consumer := turn l.fresh l.idle_polls l.rest }
  | .read idle => match w.group.unread 1 with
    | [] => some { w with consumer := .poll idle w.relayExited }
    | entries => some { w with group := w.group.readgroup 1, consumer := turn true 0 entries }
  | .poll idle late =>
    if w.group.pendingEntries.length ≠ 0 then some { w with consumer := .reclaim idle }
    else if args.max_idle_polls ≤ idle + 1 then
      some { w with consumer := .off, consumerExited := w.consumerExited || late }
    else some { w with consumer := .reclaim (idle + 1) }

def step : Act → World F → Option (World F)
  | .startRelay, w => if w.relay = .off then some { w with relay := .select } else none
  | .relay, w => relayStep loads repr w
  | .killRelay, w => some { w with relay := .off }
  | .startConsumer, w => match w.consumer with
    | .off => some { w with consumer := .create }
    | _ => none
  | .consumer, w => consumerStep loads args w
  | .killConsumer, w => some { w with consumer := .off }
  | .tick d, w => some { w with group := w.group.tick d }

end Step

/-- A clean slate: the events seeded, the cash row of the account, an empty
stream with its group, no process. -/
structure Started (account : String) (events : List OutboxEvent) (w : World F) : Prop where
  store : ∃ s : ProofStore F, ProofStore.empty.seedOutbox events = .ok s ∧
    w.store = s.initProjection account seedCash
  log : w.group.log = []
  group : w.group.New
  relay : w.relay = .off
  consumer : w.consumer = .off
  relayExited : w.relayExited = false
  consumerExited : w.consumerExited = false

/-! ## What has been published

The relay publishes the events in order, the last one perhaps several times. -/

/-- How many events have been published, after `m` of them and then `e`. -/
def advance (events : List OutboxEvent) (m : ℕ) (e : OutboxEvent) : Option ℕ :=
  if events[m]? = some e then some (m + 1)
  else if 0 < m ∧ events[m - 1]? = some e then some m
  else none

def progress (events published : List OutboxEvent) : Option ℕ :=
  published.foldlM (advance events) 0

section Progress

variable {events published : List OutboxEvent} {e : OutboxEvent} {m m' : ℕ}

theorem progress_snoc (events published : List OutboxEvent) (e : OutboxEvent) :
    progress events (published ++ [e]) =
      (progress events published).bind fun m => advance events m e := by
  rw [progress, List.foldlM_append]
  simp only [List.foldlM_cons, List.foldlM_nil, bind_pure]
  rfl

/-- What was published first was in order too. -/
theorem progress_take (h : progress events published = some m) (i : ℕ) :
    ∃ m', progress events (published.take i) = some m' := by
  rw [progress, ← List.take_append_drop i published, List.foldlM_append] at h
  obtain ⟨m', hm', -⟩ := Option.bind_eq_some_iff.mp h
  exact ⟨m', hm'⟩

theorem advance_cases (h : advance events m e = some m') :
    (m' = m + 1 ∧ events[m]? = some e) ∨ (m' = m ∧ 0 < m ∧ events[m - 1]? = some e) := by
  unfold advance at h
  split at h
  · rename_i hnew
    exact .inl ⟨(Option.some.inj h).symm, hnew⟩
  · split at h
    · rename_i hold
      exact .inr ⟨(Option.some.inj h).symm, hold⟩
    · cases h

/-- The event just published is the last one. -/
theorem advance_last (h : advance events m e = some m') :
    0 < m' ∧ events[m' - 1]? = some e := by
  obtain ⟨rfl, hnew⟩ | ⟨rfl, hpos, hold⟩ := advance_cases h
  · exact ⟨Nat.succ_pos m, hnew⟩
  · exact ⟨hpos, hold⟩

theorem advance_new (h : events[m]? = some e) : advance events m e = some (m + 1) := by
  rw [advance, if_pos h]

theorem mem_take_of_getElem? {xs : List OutboxEvent} {i n : ℕ} (h : xs[i]? = some e) (hi : i < n) :
    e ∈ xs.take n :=
  List.mem_of_getElem? ((List.getElem?_take_of_lt hi).trans h)

/-- Events with distinct ids: an id among the first ones is not that of a later one. -/
theorem not_mem_take (hnodup : (events.map (·.event_id)).Nodup) (h : events[m]? = some e) :
    e.event_id ∉ (events.take m).map (·.event_id) := by
  obtain ⟨hlt, rfl⟩ := List.getElem?_eq_some_iff.mp h
  intro hmem
  obtain ⟨i, hi, heq⟩ := List.getElem_of_mem (List.map_take ▸ hmem)
  rw [List.length_take, List.length_map] at hi
  rw [List.getElem_take] at heq
  have hi' : i < (events.map (·.event_id)).length := by
    rw [List.length_map]
    omega
  have hm : m < (events.map (·.event_id)).length := by
    rw [List.length_map]
    exact hlt
  have hsame : (events.map (·.event_id))[i] = (events.map (·.event_id))[m] :=
    heq.trans (List.getElem_map ..).symm
  have hinj := hnodup.getElem_inj_iff.mp hsame
  omega

/-- To publish the last event once more adds nothing. -/
theorem advance_again (hnodup : (events.map (·.event_id)).Nodup) (hpos : 0 < m)
    (h : events[m - 1]? = some e) : advance events m e = some m := by
  unfold advance
  split
  · rename_i hnew
    exact absurd (List.mem_map_of_mem (mem_take_of_getElem? h (by omega)))
      (not_mem_take hnodup hnew)
  · rw [if_pos ⟨hpos, h⟩]

end Progress

/-! ## The outbox -/

section Outbox

variable {events : List OutboxEvent} {e : OutboxEvent} {k : ℕ}

/-- The rows when the first `k` are sent. -/
def rowsOf (k : ℕ) (events : List OutboxEvent) : List OutboxRow :=
  (events.take k).map (fun e => ⟨e, true⟩) ++ (events.drop k).map fun e => ⟨e, false⟩

theorem unsentOutbox_rowsOf {s : ProofStore ℚ} (h : s.outbox_events = rowsOf k events) :
    s.unsentOutbox = events.drop k := by
  rw [ProofStore.unsentOutbox, h, rowsOf, List.filter_append, List.filter_map, List.filter_map,
    List.map_append, List.filter_eq_nil_iff.mpr (by simp), List.filter_eq_self.mpr (by simp)]
  simp [Function.comp_def]

theorem drop_of_getElem? (h : events[k]? = some e) : events.drop k = e :: events.drop (k + 1) := by
  obtain ⟨hlt, rfl⟩ := List.getElem?_eq_some_iff.mp h
  exact List.drop_eq_getElem_cons hlt

theorem take_of_getElem? (h : events[k]? = some e) : events.take (k + 1) = events.take k ++ [e] := by
  rw [List.take_add_one, h, Option.toList_some]

theorem markSent_rowsOf (hnodup : (events.map (·.event_id)).Nodup) {s : ProofStore ℚ}
    (h : s.outbox_events = rowsOf k events) (he : events[k]? = some e) :
    (s.markSent e.event_id).outbox_events = rowsOf (k + 1) events := by
  have hlater : ∀ e' ∈ events.drop (k + 1), e'.event_id ≠ e.event_id := by
    intro e' he' heq
    rw [← List.take_append_drop k events, drop_of_getElem? he, List.map_append,
      List.map_cons] at hnodup
    have hcons := (List.nodup_append.mp hnodup).2.1
    exact (List.nodup_cons.mp hcons).1 (heq ▸ List.mem_map_of_mem he')
  rw [ProofStore.markSent, h, rowsOf, rowsOf, take_of_getElem? he, drop_of_getElem? he,
    List.map_append, List.map_append, List.append_assoc]
  refine congr (congrArg _ ?_) ?_
  · rw [List.map_map]
    refine List.map_congr_left fun e' _ => ?_
    simp
  · rw [List.map_cons, List.map_cons, List.map_map]
    refine congr (congrArg _ (if_pos rfl)) (List.map_congr_left fun e' he' => ?_)
    exact if_neg (hlater e' he')

theorem seedOutbox_ok (hnodup : (events.map (·.event_id)).Nodup) :
    (ProofStore.empty : ProofStore ℚ).seedOutbox events =
      .ok { ProofStore.empty with outbox_events := rowsOf 0 events } := by
  suffices h : ∀ done, ((done ++ events).map (·.event_id)).Nodup →
      ProofStore.seedOutbox { ProofStore.empty with outbox_events := rowsOf 0 done } events =
        .ok { (ProofStore.empty : ProofStore ℚ) with outbox_events := rowsOf 0 (done ++ events) } by
    exact h [] hnodup
  clear hnodup
  induction events with
  | nil =>
    intro done _
    rw [List.append_nil]
    rfl
  | cons e events ih =>
    intro done hnodup
    have hnew : e.event_id ∉ (rowsOf 0 done).map (·.event_id) := by
      rw [List.map_append, List.map_cons] at hnodup
      have hdisj := (List.nodup_append.mp hnodup).2.2
      simp only [rowsOf, List.take_zero, List.drop_zero, List.map_nil, List.nil_append,
        List.map_map]
      exact fun hmem => hdisj _ hmem _ (List.mem_cons_self ..) rfl
    have hrow : rowsOf 0 done ++ [⟨e, false⟩] = rowsOf 0 (done ++ [e]) := by simp [rowsOf]
    have hrest := ih (done ++ [e]) (by rwa [List.append_assoc])
    rw [List.append_assoc, List.singleton_append] at hrest
    rw [ProofStore.seedOutbox, List.foldlM_cons, ProofStore.seedRow, if_neg hnew, hrow]
    exact hrest

end Outbox

/-! ## The invariant -/

section Invariant

variable {loads : String → Except PyError (Json ℚ)} {repr : Json ℚ → String} {args : ProofArgs}
  {account : String} {events published : List OutboxEvent} {w w' : World ℚ}

/-- The stream entry of an event. -/
def wire (loads : String → Except PyError (Json ℚ)) (repr : Json ℚ → String) (e : OutboxEvent) :
    Fields :=
  (buildStreamFields loads repr e).toOption.getD []

/-- The first `k` events are marked, and they or one more are published. -/
structure Published (loads : String → Except PyError (Json ℚ)) (repr : Json ℚ → String)
    (events : List OutboxEvent) (k : ℕ) (published : List OutboxEvent) (w : World ℚ) : Prop where
  rows : w.store.outbox_events = rowsOf k events
  log : w.group.log = published.map (wire loads repr)
  count : progress events published = some k ∨ progress events published = some (k + 1)
  publish : ∀ rows, w.relay = .publish rows → rows = events.drop k
  mark : ∀ id rows, w.relay = .mark id rows → progress events published = some (k + 1) ∧
    rows = events.drop (k + 1) ∧ ∃ e, events[k]? = some e ∧ id = e.event_id
  exited : w.relayExited = true → events.length ≤ k

/-- The tables hold what the first `n` entries amount to. -/
def Effects (loads : String → Except PyError (Json ℚ)) (account : String)
    (events published : List OutboxEvent) (n : ℕ) (s : ProofStore ℚ) : Prop :=
  ∃ m, progress events (published.take n) = some m ∧ Reflects loads account (events.take m) s

/-- The consumer has entry `l.id`, the last one delivered, in hand. -/
structure Holding (loads : String → Except PyError (Json ℚ)) (repr : Json ℚ → String)
    (published : List OutboxEvent) (w : World ℚ) (fields : Fields) (l : Loop) : Prop where
  id : l.id = w.group.next
  rest : l.rest = []
  pending : w.group.pending w.group.next ≠ none
  entry : (published.map (wire loads repr))[w.group.next - 1]? = some fields

/-- A relay run has exited, and everything is delivered and acknowledged. -/
structure Drained (published : List OutboxEvent) (w : World ℚ) : Prop where
  relayExited : w.relayExited = true
  next : w.group.next = published.length
  pending : ∀ id, w.group.pending id = none

/-- What the next step of the consumer finds. -/
def Ready (loads : String → Except PyError (Json ℚ)) (repr : Json ℚ → String) (account : String)
    (events published : List OutboxEvent) (w : World ℚ) : ConsumerAt ℚ → Prop
  | .off | .create | .reclaim _ => True
  | .handle fields l => Holding loads repr published w fields l
  | .apply event l => ∃ fields, Holding loads repr published w fields l ∧
      extract loads fields = .ok (some event)
  | .ack l => (∃ fields, Holding loads repr published w fields l) ∧
      Effects loads account events published w.group.next w.store
  | .read _ => ∀ id, w.group.pending id = none
  | .poll _ late => (∀ id, w.group.pending id = none) ∧ (late = true → Drained published w)

/-- Only the last entry delivered may be pending, and only its effect may be missing. -/
structure Consumed (loads : String → Except PyError (Json ℚ)) (repr : Json ℚ → String)
    (account : String) (events published : List OutboxEvent) (w : World ℚ) : Prop where
  next : w.group.next ≤ published.length
  pending : ∀ id, w.group.pending id ≠ none → id = w.group.next ∧ 0 < id
  effects : Effects loads account events published w.group.next w.store ∨
    w.group.pending w.group.next ≠ none ∧
      Effects loads account events published (w.group.next - 1) w.store
  ready : Ready loads repr account events published w w.consumer
  exited : w.consumerExited = true → Drained published w

def Inv (loads : String → Except PyError (Json ℚ)) (repr : Json ℚ → String) (account : String)
    (events : List OutboxEvent) (w : World ℚ) : Prop :=
  ∃ k published, Published loads repr events k published w ∧
    Consumed loads repr account events published w

/-- Every event is one of the account. -/
def AllShaped (loads : String → Except PyError (Json ℚ)) (account : String)
    (events : List OutboxEvent) : Prop :=
  ∀ e ∈ events, ∃ env, Shaped loads account e env

/-! ### Steps beside the consumer -/

/-- What the relay does, as far as the consumer can tell. -/
structure Beside (loads : String → Except PyError (Json ℚ)) (account : String)
    (published published' : List OutboxEvent) (w w' : World ℚ) : Prop where
  grows : published <+: published'
  next : w'.group.next = w.group.next
  pending : w'.group.pending = w.group.pending
  tables : ∀ done, Reflects loads account done w.store → Reflects loads account done w'.store
  consumer : w'.consumer = w.consumer
  consumerExited : w'.consumerExited = w.consumerExited
  exited : w.relayExited = true → w'.relayExited = true ∧ published' = published

section Beside

variable {published' : List OutboxEvent} (hb : Beside loads account published published' w w')

include hb

theorem Effects.beside {n : ℕ} (h : Effects loads account events published n w.store)
    (hn : n ≤ published.length) : Effects loads account events published' n w'.store := by
  obtain ⟨m, hm, hr⟩ := h
  obtain ⟨new, rfl⟩ := hb.grows
  exact ⟨m, by rwa [List.take_append_of_le_length hn], hb.tables _ hr⟩

theorem Holding.beside {fields : Fields} {l : Loop}
    (h : Holding loads repr published w fields l) : Holding loads repr published' w' fields l where
  id := by rw [hb.next, h.id]
  rest := h.rest
  pending := by rw [hb.next, hb.pending]; exact h.pending
  entry := by
    obtain ⟨new, rfl⟩ := hb.grows
    obtain ⟨hlt, -⟩ := List.getElem?_eq_some_iff.mp h.entry
    rw [hb.next, List.map_append, List.getElem?_append_left hlt]
    exact h.entry

theorem Drained.beside (h : Drained published w) : Drained published' w' where
  relayExited := (hb.exited h.relayExited).1
  next := by rw [hb.next, h.next, (hb.exited h.relayExited).2]
  pending := hb.pending ▸ h.pending

theorem Consumed.beside (h : Consumed loads repr account events published w) :
    Consumed loads repr account events published' w' where
  next := by rw [hb.next]; exact h.next.trans hb.grows.length_le
  pending := by rw [hb.next, hb.pending]; exact h.pending
  effects := by
    rw [hb.next, hb.pending]
    refine h.effects.imp (·.beside hb h.next) fun hmissing => ⟨hmissing.1, ?_⟩
    exact hmissing.2.beside hb ((Nat.sub_le ..).trans h.next)
  ready := by
    have hr := h.ready
    rw [hb.consumer]
    cases hc : w.consumer with
    | off | create | reclaim => trivial
    | handle fields l =>
      rw [hc] at hr
      exact Holding.beside hb hr
    | apply event l =>
      rw [hc] at hr
      obtain ⟨fields, hhold, hx⟩ := hr
      exact ⟨fields, hhold.beside hb, hx⟩
    | ack l =>
      rw [hc] at hr
      obtain ⟨⟨fields, hhold⟩, he⟩ := hr
      refine ⟨⟨fields, hhold.beside hb⟩, ?_⟩
      rw [hb.next]
      exact he.beside hb h.next
    | read idle =>
      rw [hc] at hr
      intro id
      rw [hb.pending]
      exact hr id
    | poll idle late =>
      rw [hc] at hr
      refine ⟨fun id => ?_, fun hl => (hr.2 hl).beside hb⟩
      rw [hb.pending]
      exact hr.1 id
  exited hx := (h.exited (hb.consumerExited ▸ hx)).beside hb

end Beside

/-- Steps that concern neither the stream nor the tables. -/
theorem Beside.still (hgroup : w'.group.next = w.group.next)
    (hpending : w'.group.pending = w.group.pending) (hstore : w'.store = w.store)
    (hconsumer : w'.consumer = w.consumer) (hce : w'.consumerExited = w.consumerExited)
    (hre : w.relayExited = true → w'.relayExited = true) :
    Beside loads account published published w w' :=
  ⟨List.prefix_rfl, hgroup, hpending, fun _ => hstore ▸ id, hconsumer, hce, fun h => ⟨hre h, rfl⟩⟩

/-! ### The relay -/

theorem Published.off (h : Published loads repr events k published w) (hr : w'.relay = .off)
    (hrows : w'.store.outbox_events = w.store.outbox_events) (hlog : w'.group.log = w.group.log)
    (hx : w'.relayExited = true → events.length ≤ k) :
    Published loads repr events k published w' where
  rows := hrows.trans h.rows
  log := hlog.trans h.log
  count := h.count
  publish rows hp := by rw [hr] at hp; cases hp
  mark id rows hm := by rw [hr] at hm; cases hm
  exited := hx

theorem Inv.relayStep (hshape : AllShaped loads account events)
    (hnodup : (events.map (·.event_id)).Nodup) (h : Inv loads repr account events w)
    (hs : relayStep loads repr w = some w') : Inv loads repr account events w' := by
  obtain ⟨k, published, hp, hc⟩ := h
  unfold Poc.relayStep at hs
  split at hs
  · cases hs
  · cases hs
    refine ⟨k, published, ⟨hp.rows, hp.log, hp.count, ?_, nofun, hp.exited⟩, hc.beside ?_⟩
    · intro rows hrows
      cases hrows
      exact unsentOutbox_rowsOf hp.rows
    · exact .still rfl rfl rfl rfl rfl id
  · -- nothing is left to publish
    rename_i hrelay
    cases hs
    refine ⟨k, published, hp.off rfl rfl rfl fun _ => ?_, hc.beside ?_⟩
    · exact List.drop_eq_nil_iff.mp (hp.publish [] hrelay).symm
    · exact .still rfl rfl rfl rfl rfl fun _ => rfl
  · rename_i e rows hrelay
    have hdrop := (hp.publish _ hrelay).symm
    have he : events[k]? = some e := by rw [← List.head?_drop, hdrop]; rfl
    obtain ⟨env, henv⟩ := hshape e (List.mem_of_getElem? he)
    obtain ⟨v, hfields⟩ := henv.fields repr
    rw [hfields] at hs
    cases hs
    have hcount : progress events (published ++ [e]) = some (k + 1) := by
      rw [progress_snoc]
      obtain hk | hk := hp.count
      · rw [hk]
        exact advance_new he
      · rw [hk]
        exact advance_again hnodup (Nat.succ_pos k) he
    have hwire : wire loads repr e =
        [("event_type", e.event_type), ("schema_version", v), ("event", e.payload)] := by
      rw [wire, hfields]
      rfl
    refine ⟨k, published ++ [e], ⟨hp.rows, ?_, .inr hcount, nofun, ?_, hp.exited⟩, hc.beside ?_⟩
    · rw [ConsumerGroup.log_add, hp.log, List.map_append, List.map_singleton, hwire]
    · intro id rows' hmark
      cases hmark
      rw [drop_of_getElem? he] at hdrop
      exact ⟨hcount, (List.cons.inj hdrop).2.symm, e, he, rfl⟩
    · refine ⟨List.prefix_append .., rfl, rfl, fun _ => id, rfl, rfl, fun hx => ?_⟩
      obtain ⟨hlt, -⟩ := List.getElem?_eq_some_iff.mp he
      exact absurd (hp.exited hx) (by omega)
  · rename_i id rows hrelay
    cases hs
    obtain ⟨hcount, hrows, e, he, rfl⟩ := hp.mark id rows hrelay
    refine ⟨k + 1, published, ⟨markSent_rowsOf hnodup hp.rows he, hp.log, .inl hcount, ?_, nofun,
      fun hx => (hp.exited hx).trans (Nat.le_succ k)⟩, hc.beside ?_⟩
    · intro rows' hpub
      cases hpub
      exact hrows
    · exact ⟨List.prefix_rfl, rfl, rfl, fun _ hr => ⟨hr.processed, hr.baseline⟩, rfl, rfl,
        fun hx => ⟨hx, rfl⟩⟩

/-! ### The consumer -/

theorem Published.frame (h : Published loads repr events k published w)
    (hrows : w'.store.outbox_events = w.store.outbox_events) (hlog : w'.group.log = w.group.log)
    (hrelay : w'.relay = w.relay) (hx : w'.relayExited = w.relayExited) :
    Published loads repr events k published w' where
  rows := hrows.trans h.rows
  log := hlog.trans h.log
  count := h.count
  publish rows hp := h.publish rows (hrelay ▸ hp)
  mark id rows hm := h.mark id rows (hrelay ▸ hm)
  exited hw := h.exited (hx ▸ hw)

/-- An entry in hand is that of an event, published after those the entries
before it amount to. -/
theorem Holding.event {fields : Fields} {l : Loop} {n : ℕ}
    (h : Holding loads repr published w fields l) (hpos : 0 < w.group.next)
    (hcount : progress events published = some n) :
    ∃ e m m', fields = wire loads repr e ∧ e ∈ events ∧
      progress events (published.take (w.group.next - 1)) = some m ∧
      progress events (published.take w.group.next) = some m' ∧ advance events m e = some m' := by
  obtain ⟨e, he, rfl⟩ := Option.map_eq_some_iff.mp ((List.getElem?_map ..).symm.trans h.entry)
  obtain ⟨m, hm⟩ := progress_take hcount (w.group.next - 1)
  obtain ⟨m', hm'⟩ := progress_take hcount w.group.next
  have htake : published.take w.group.next = published.take (w.group.next - 1) ++ [e] := by
    have hsucc := take_of_getElem? he
    rwa [Nat.sub_add_cancel hpos] at hsucc
  have hadv : advance events m e = some m' := by
    rw [htake, progress_snoc, hm] at hm'
    exact hm'
  exact ⟨e, m, m', rfl, List.mem_of_getElem? (advance_last hadv).2, hm, hm', hadv⟩

/-- What handling the last entry delivered has to do. -/
structure Pending (loads : String → Except PyError (Json ℚ)) (account : String)
    (events published : List OutboxEvent) (n : ℕ) (s : ProofStore ℚ) (event : Extracted ℚ) :
    Prop where
  known : s.alreadyProcessed event.event_id = .ok true → Effects loads account events published n s
  checked : ∃ b, s.alreadyProcessed event.event_id = .ok b
  applied : ∃ b s', s.apply event.event_id event.account_id event.symbol event.qty_after
    event.cash_delta = .ok (b, s') ∧ s'.outbox_events = s.outbox_events ∧
    Effects loads account events published n s'

theorem Consumed.holding (hc : Consumed loads repr account events published w)
    (hshape : AllShaped loads account events) (hnodup : (events.map (·.event_id)).Nodup) {n : ℕ}
    (hcount : progress events published = some n) {fields : Fields} {l : Loop}
    (h : Holding loads repr published w fields l) :
    ∃ event, extract loads fields = .ok (some event) ∧
      Pending loads account events published w.group.next w.store event := by
  obtain ⟨e, m, m', rfl, hmem, hm, hm', hadv⟩ := h.event (hc.pending _ h.pending).2 hcount
  obtain ⟨env, henv⟩ := hshape e hmem
  obtain ⟨y, hy⟩ := Option.isSome_iff_exists.mp henv.symbol
  obtain ⟨v, hfields⟩ := henv.fields repr
  have hwire : (wire loads repr e).reverse.lookup "event" = some e.payload := by
    rw [wire, hfields]
    rfl
  refine ⟨_, henv.extract hy hwire, ?_⟩
  -- the tables lack the effect of the entry only if its event is new
  have hknown : ∀ k, k = m' ∨ k = m → Reflects loads account (events.take k) w.store →
      e.event_id ∈ (events.take k).map (·.event_id) →
      Reflects loads account (events.take m') w.store := by
    intro k hk hr hid
    obtain rfl | rfl := hk
    · exact hr
    · obtain ⟨rfl, hnew⟩ | ⟨rfl, -, -⟩ := advance_cases hadv
      · exact absurd hid (not_mem_take hnodup hnew)
      · exact hr
  have hreflects : ∃ k, (k = m' ∨ k = m) ∧ Reflects loads account (events.take k) w.store := by
    obtain ⟨k, hk, hr⟩ | ⟨-, k, hk, hr⟩ := hc.effects
    · exact ⟨k, .inl (Option.some.inj (hk.symm.trans hm')), hr⟩
    · exact ⟨k, .inr (Option.some.inj (hk.symm.trans hm)), hr⟩
  obtain ⟨k, hk, hr⟩ := hreflects
  have hchecked := hr.alreadyProcessed e.event_id
  refine ⟨fun hb => ⟨m', hm', ?_⟩, ⟨_, hchecked⟩, ?_⟩
  · rw [hchecked] at hb
    exact hknown k hk hr (of_decide_eq_true (Except.ok.inj hb))
  · by_cases hid : e.event_id ∈ (events.take k).map (·.event_id)
    · exact ⟨false, w.store, hr.apply_known hid _ _ _ _, rfl, m', hm', hknown k hk hr hid⟩
    · obtain ⟨s', happly, hrows, hr'⟩ := hr.apply_new henv hy hid
      refine ⟨true, s', happly, hrows, m', hm', ?_⟩
      obtain rfl | rfl := hk
      · obtain ⟨hpos, hlast⟩ := advance_last hadv
        exact absurd (List.mem_map_of_mem (mem_take_of_getElem? hlast (by omega))) hid
      · obtain ⟨rfl, hnew⟩ | ⟨rfl, hpos, hold⟩ := advance_cases hadv
        · rwa [take_of_getElem? hnew]
        · exact absurd (List.mem_map_of_mem (mem_take_of_getElem? hold (by omega))) hid

/-- `XAUTOCLAIM` hands out the pending entry, if there is one. -/
theorem Consumed.reclaim (h : Consumed loads repr account events published w)
    (hlog : w.group.log = published.map (wire loads repr)) (idle : ℤ) :
    Consumed loads repr account events published
      { w with group := w.group.autoclaim 0 100
               consumer := turn false idle (w.group.claimable 0 100) } := by
  have hclaim : w.group.claimable 0 100 = w.group.pendingEntries.take 100 :=
    (ConsumerGroup.rested_zero w.group).claimable 100
  by_cases hnone : w.group.pending w.group.next = none
  · have hall : ∀ id, w.group.pending id = none := by
      intro id
      by_contra hid
      exact hid ((h.pending id hid).1 ▸ hnone)
    rw [ConsumerGroup.pendingEntries_eq_nil hall, List.take_nil] at hclaim
    have hsame : w.group.autoclaim 0 100 = w.group := by
      rw [ConsumerGroup.autoclaim, hclaim]
      rfl
    rw [hsame, hclaim]
    refine ⟨h.next, h.pending, h.effects, hall, fun hx => ?_⟩
    exact ⟨(h.exited hx).relayExited, (h.exited hx).next, hall⟩
  · have hpos := (h.pending _ hnone).2
    have hlt : w.group.next - 1 < w.group.log.length := by
      have hnext := h.next
      rw [hlog, List.length_map]
      omega
    have hget := List.getElem?_eq_getElem hlt
    rw [ConsumerGroup.pendingEntries_single hnone (fun id hid => (h.pending id hid).1) hget hpos]
      at hclaim
    have hpending : ∀ id, (w.group.autoclaim 0 100).pending id =
        if id = w.group.next then some w.group.clock else w.group.pending id := by
      intro id
      simp only [ConsumerGroup.autoclaim, ConsumerGroup.deliver, hclaim, List.take_succ_cons,
        List.take_nil, List.map_cons, List.map_nil, List.mem_singleton]
    have hsome : (w.group.autoclaim 0 100).pending w.group.next ≠ none := by
      rw [hpending, if_pos rfl]
      exact Option.some_ne_none _
    rw [hclaim]
    refine ⟨h.next, ?_, ?_, ⟨rfl, rfl, hsome, hlog ▸ hget⟩, fun hx => ?_⟩
    · intro id hid
      change (w.group.autoclaim 0 100).pending id ≠ none at hid
      rw [hpending] at hid
      split at hid
      · rename_i heq
        exact ⟨heq, heq ▸ hpos⟩
      · exact h.pending id hid
    · exact h.effects.imp id fun hmissing => ⟨hsome, hmissing.2⟩
    · exact absurd ((h.exited hx).pending _) hnone

/-- `XACK` of the entry in hand; its effect is in the tables. -/
theorem Consumed.ack (h : Consumed loads repr account events published w) {fields : Fields}
    {l : Loop} (hhold : Holding loads repr published w fields l)
    (he : Effects loads account events published w.group.next w.store) :
    Consumed loads repr account events published
      { w with group := w.group.ack l.id, consumer := turn l.fresh l.idle_polls l.rest } := by
  have hpending : ∀ id, (w.group.ack l.id).pending id = none := by
    intro id
    simp only [ConsumerGroup.ack]
    split
    · rfl
    · rename_i hne
      by_contra hid
      exact hne ((h.pending id hid).1.trans hhold.id.symm)
  refine ⟨h.next, fun id hid => absurd (hpending id) hid, .inl he, ?_, fun hx => ?_⟩
  · rw [hhold.rest]
    cases l.fresh with
    | true => trivial
    | false => exact hpending
  · exact absurd ((h.exited hx).pending _) hhold.pending

/-- `XREADGROUP` of the next entry. -/
theorem Consumed.readgroup (h : Consumed loads repr account events published w)
    (hlog : w.group.log = published.map (wire loads repr)) {idle : ℤ}
    (hnone : ∀ id, w.group.pending id = none) (hs : (match w.group.unread 1 with
      | [] => some { w with consumer := .poll idle w.relayExited }
      | entries => some { w with group := w.group.readgroup 1, consumer := turn true 0 entries }) =
        some w') :
    Consumed loads repr account events published w' := by
  have hnow : Effects loads account events published w.group.next w.store :=
    h.effects.resolve_right fun hmissing => hmissing.1 (hnone _)
  have hlen : w.group.log.length = published.length := by rw [hlog, List.length_map]
  cases hget : w.group.log[w.group.next]? with
  | none =>
    have hle := List.getElem?_eq_none_iff.mp hget
    have hunread : w.group.unread 1 = [] := by
      rw [ConsumerGroup.unread, after_of_length_le hle]
      rfl
    rw [hunread] at hs
    cases hs
    refine ⟨h.next, h.pending, h.effects, ⟨hnone, fun hl => ⟨hl, ?_, hnone⟩⟩, fun hx => ?_⟩
    · exact Nat.le_antisymm h.next (hlen ▸ hle)
    · exact ⟨(h.exited hx).relayExited, (h.exited hx).next, hnone⟩
  | some fields =>
    obtain ⟨hlt, -⟩ := List.getElem?_eq_some_iff.mp hget
    have hunread := ConsumerGroup.unread_one hget
    have hnext : (w.group.readgroup 1).next = w.group.next + 1 := by
      rw [ConsumerGroup.readgroup, hunread]
      rfl
    have hpending : ∀ id, (w.group.readgroup 1).pending id =
        if id = w.group.next + 1 then some w.group.clock else none := by
      intro id
      simp only [ConsumerGroup.readgroup, ConsumerGroup.deliver, hunread, List.map_cons,
        List.map_nil, List.mem_singleton, hnone]
    have hsome : (w.group.readgroup 1).pending (w.group.readgroup 1).next ≠ none := by
      rw [hnext, hpending, if_pos rfl]
      exact Option.some_ne_none _
    rw [hunread] at hs
    cases hs
    refine ⟨?_, ?_, .inr ⟨hsome, ?_⟩, ⟨hnext.symm, rfl, hsome, ?_⟩, fun hx => ?_⟩
    · change (w.group.readgroup 1).next ≤ _
      rw [hnext]
      omega
    · intro id hid
      change (w.group.readgroup 1).pending id ≠ none at hid
      change id = (w.group.readgroup 1).next ∧ 0 < id
      rw [hpending] at hid
      split at hid
      · rename_i heq
        rw [hnext, heq]
        exact ⟨rfl, Nat.succ_pos _⟩
      · exact absurd rfl hid
    · change Effects loads account events published ((w.group.readgroup 1).next - 1) w.store
      rw [hnext]
      exact hnow
    · change _[(w.group.readgroup 1).next - 1]? = _
      rw [hnext, ← hlog]
      exact hget
    · exact absurd (h.exited hx).next (by omega)

theorem Inv.consumerStep (hshape : AllShaped loads account events)
    (hnodup : (events.map (·.event_id)).Nodup) (hidle : args.min_idle_ms = 0)
    (h : Inv loads repr account events w) (hs : consumerStep loads args w = some w') :
    Inv loads repr account events w' := by
  obtain ⟨k, published, hp, hc⟩ := h
  have hready := hc.ready
  have hexited : w.consumerExited = true → ∀ {v : World ℚ}, v.relayExited = w.relayExited →
      v.group = w.group → Drained published v := by
    intro hx v hv hg
    exact ⟨hv.trans (hc.exited hx).relayExited, hg ▸ (hc.exited hx).next,
      hg ▸ (hc.exited hx).pending⟩
  obtain ⟨n, hn⟩ : ∃ n, progress events published = some n :=
    hp.count.elim (fun h => ⟨k, h⟩) fun h => ⟨k + 1, h⟩
  suffices hgoal : w'.store.outbox_events = w.store.outbox_events ∧ w'.group.log = w.group.log ∧
      w'.relay = w.relay ∧ w'.relayExited = w.relayExited ∧
      Consumed loads repr account events published w' by
    obtain ⟨hrows, hlog, hrelay, hx, hc'⟩ := hgoal
    exact ⟨k, published, hp.frame hrows hlog hrelay hx, hc'⟩
  unfold Poc.consumerStep at hs
  split at hs
  · cases hs
  · cases hs
    exact ⟨rfl, rfl, rfl, rfl, hc.next, hc.pending, hc.effects, trivial, fun hx =>
      hexited hx rfl rfl⟩
  · rename_i idle hcons
    rw [hidle] at hs
    cases hs
    exact ⟨rfl, rfl, rfl, rfl, hc.reclaim hp.log idle⟩
  · rename_i fields l hcons
    rw [hcons] at hready
    obtain ⟨event, hextract, hpend⟩ := hc.holding hshape hnodup hn hready
    obtain ⟨b, hb⟩ := hpend.checked
    rw [handleStart, hextract] at hs
    simp only [hb] at hs
    cases b with
    | true =>
      cases hs
      exact ⟨rfl, rfl, rfl, rfl, hc.next, hc.pending, hc.effects,
        ⟨⟨fields, hready.id, hready.rest, hready.pending, hready.entry⟩, hpend.known hb⟩,
        fun hx => hexited hx rfl rfl⟩
    | false =>
      cases hs
      exact ⟨rfl, rfl, rfl, rfl, hc.next, hc.pending, hc.effects,
        ⟨fields, ⟨hready.id, hready.rest, hready.pending, hready.entry⟩, hextract⟩,
        fun hx => hexited hx rfl rfl⟩
  · rename_i event l hcons
    rw [hcons] at hready
    obtain ⟨fields, hhold, hx⟩ := hready
    obtain ⟨event', hextract, hpend⟩ := hc.holding hshape hnodup hn hhold
    obtain rfl : event = event' := Option.some.inj (Except.ok.inj (hx.symm.trans hextract))
    obtain ⟨b, s', happly, hrows, he⟩ := hpend.applied
    rw [happly] at hs
    cases hs
    exact ⟨hrows, rfl, rfl, rfl, hc.next, hc.pending, .inl he,
      ⟨⟨fields, hhold.id, hhold.rest, hhold.pending, hhold.entry⟩, he⟩,
      fun hx => hexited hx rfl rfl⟩
  · rename_i l hcons
    rw [hcons] at hready
    obtain ⟨⟨fields, hhold⟩, he⟩ := hready
    cases hs
    exact ⟨rfl, rfl, rfl, rfl, hc.ack hhold he⟩
  · rename_i idle hcons
    rw [hcons] at hready
    have hframe := hc.readgroup hp.log hready hs
    split at hs <;> cases hs <;> exact ⟨rfl, rfl, rfl, rfl, hframe⟩
  · rename_i idle late hcons
    rw [hcons] at hready
    obtain ⟨hnone, hlate⟩ := hready
    split at hs
    · cases hs
      exact ⟨rfl, rfl, rfl, rfl, hc.next, hc.pending, hc.effects, trivial, fun hx =>
        hexited hx rfl rfl⟩
    · split at hs <;> cases hs
      · refine ⟨rfl, rfl, rfl, rfl, hc.next, hc.pending, hc.effects, trivial, fun hx => ?_⟩
        obtain hx | hx := Bool.or_eq_true_iff.mp hx
        · exact hexited hx rfl rfl
        · exact ⟨(hlate hx).relayExited, (hlate hx).next, hnone⟩
      · exact ⟨rfl, rfl, rfl, rfl, hc.next, hc.pending, hc.effects, trivial, fun hx =>
          hexited hx rfl rfl⟩

/-! ### Runs -/

theorem Inv.of_started (hnodup : (events.map (·.event_id)).Nodup)
    (h : Started account events w) : Inv loads repr account events w := by
  obtain ⟨s, hs, hstore⟩ := h.store
  rw [seedOutbox_ok hnodup] at hs
  cases hs
  have hnext := h.group.next
  refine ⟨0, [], ⟨?_, h.log, .inl rfl, ?_, ?_, ?_⟩, ⟨?_, ?_, .inl ⟨0, ?_, ?_⟩, ?_, ?_⟩⟩
  · rw [hstore]
    rfl
  · intro rows hr
    rw [h.relay] at hr
    cases hr
  · intro id rows hr
    rw [h.relay] at hr
    cases hr
  · intro hx
    rw [h.relayExited] at hx
    cases hx
  · rw [hnext]
    exact Nat.le_refl 0
  · intro id hid
    exact absurd (h.group.pending id) hid
  · rw [List.take_nil]
    rfl
  · rw [hstore]
    exact ⟨rfl, seedCash, [], rfl, rfl, rfl⟩
  · rw [h.consumer]
    trivial
  · intro hx
    rw [h.consumerExited] at hx
    cases hx

theorem Inv.step (hshape : AllShaped loads account events)
    (hnodup : (events.map (·.event_id)).Nodup) (hidle : args.min_idle_ms = 0) {a : Act}
    (h : Inv loads repr account events w) (hs : step loads repr args a w = some w') :
    Inv loads repr account events w' := by
  cases a with
  | relay => exact h.relayStep hshape hnodup hs
  | consumer => exact h.consumerStep hshape hnodup hidle hs
  | startRelay =>
    obtain ⟨k, published, hp, hc⟩ := h
    simp only [Poc.step] at hs
    split at hs <;> cases hs
    refine ⟨k, published, ⟨hp.rows, hp.log, hp.count, ?_, ?_, hp.exited⟩, hc.beside ?_⟩
    · intro rows hr
      cases hr
    · intro id rows hr
      cases hr
    · exact .still rfl rfl rfl rfl rfl id
  | killRelay =>
    obtain ⟨k, published, hp, hc⟩ := h
    cases hs
    refine ⟨k, published, hp.off rfl rfl rfl hp.exited, hc.beside ?_⟩
    exact .still rfl rfl rfl rfl rfl id
  | startConsumer =>
    obtain ⟨k, published, hp, hc⟩ := h
    simp only [Poc.step] at hs
    split at hs <;> cases hs
    refine ⟨k, published, hp.frame rfl rfl rfl rfl, hc.next, hc.pending, hc.effects, trivial,
      fun hx => ?_⟩
    exact ⟨(hc.exited hx).relayExited, (hc.exited hx).next, (hc.exited hx).pending⟩
  | killConsumer =>
    obtain ⟨k, published, hp, hc⟩ := h
    cases hs
    refine ⟨k, published, hp.frame rfl rfl rfl rfl, hc.next, hc.pending, hc.effects, trivial,
      fun hx => ?_⟩
    exact ⟨(hc.exited hx).relayExited, (hc.exited hx).next, (hc.exited hx).pending⟩
  | tick d =>
    obtain ⟨k, published, hp, hc⟩ := h
    cases hs
    refine ⟨k, published, hp.frame rfl rfl rfl rfl, hc.beside ?_⟩
    exact .still rfl rfl rfl rfl rfl id

/-- Whatever is killed and restarted when: once a relay run has exited with code
0, and after it a consumer run that has read once more, every event has had its
effect exactly once and nothing is pending. -/
theorem kill_restart_exact (hshape : AllShaped loads account events)
    (hnodup : (events.map (·.event_id)).Nodup) (hidle : args.min_idle_ms = 0)
    (h : Runs.Reach (step loads repr args) Runs.anyStep (Started account events) w)
    (hexited : w.consumerExited = true) :
    w.store.processed_events = events.map (fun e => some e.event_id) ∧
      (∀ id, w.group.pending id = none) ∧
      baseline loads events = some (w.store.projection account) := by
  obtain ⟨k, published, hp, hc⟩ := h.invariant (fun _ => Inv.of_started hnodup)
    (fun _ _ _ hi _ => Inv.step hshape hnodup hidle hi)
  obtain ⟨hrelay, hnext, hpending⟩ := hc.exited hexited
  obtain ⟨m, hm, hr⟩ := hc.effects.resolve_right fun hmissing => hmissing.1 (hpending _)
  have hlen := hp.exited hrelay
  rw [hnext, List.take_length] at hm
  have hall : events.take m = events := by
    refine List.take_of_length_le ?_
    obtain hk | hk := hp.count
    · exact (Option.some.inj (hk.symm.trans hm)) ▸ hlen
    · exact (Option.some.inj (hk.symm.trans hm)) ▸ hlen.trans (Nat.le_succ k)
  rw [hall] at hr
  exact ⟨hr.processed, hpending, hr.projection⟩

end Invariant

/-! ## A schedule with both kills -/

/-- The event that posts a purchase. -/
def eventOf (p : Purchase) : OutboxEvent := ⟨p.id, "LedgerUpdated", p.text⟩

theorem shaped_eventOf {ps : List Purchase} (h : (ps.map Purchase.text).Nodup) {p : Purchase}
    (hp : p ∈ ps) : Shaped (loadsOf ps) p.account (eventOf p) p.json where
  payload_ne := object_ne_empty _
  loads := loadsOf_text h hp
  event_id := rfl
  event_id_ne := p.id_ne
  schema_version := ⟨"1", rfl⟩
  data := ⟨_, rfl⟩
  account_id := rfl
  symbol := rfl
  cash_delta := rfl
  position_after := rfl

def bought : List Purchase :=
  [{ id := "evt-001", account := "acct_123", symbol := "AAPL", price := 100, positionAfter := 1 },
    { id := "evt-002", account := "acct_123", symbol := "AAPL", price := 110, positionAfter := 2 }]

def seeded : World ℚ where
  store := { ProofStore.empty with outbox_events := rowsOf 0 (bought.map eventOf)
                                   proj_cash := [("acct_123", seedCash)] }
  group := ⟨[], 0, fun _ => none, 0, []⟩
  relay := .off
  consumer := .off
  relayExited := false
  consumerExited := false

/-- The relay dies before it marks the first row, the consumer before it
acknowledges the first entry, while the relay runs again. -/
def bothKilled : List Act :=
  [.startRelay, .relay, .relay, .killRelay, .startRelay, .relay, .relay,
    .startConsumer, .consumer, .consumer, .consumer, .consumer, .consumer, .killConsumer,
    .relay, .relay, .relay, .relay, .startConsumer] ++ List.replicate 21 .consumer

theorem kill_restart_exact_bothKilled : ∃ w,
    Runs.Reach (step (loadsOf bought) (fun _ => "") ⟨0, 3⟩) Runs.anyStep
      (Started "acct_123" (bought.map eventOf)) w ∧ w.consumerExited = true ∧
    w.store.processed_events = [some "evt-001", some "evt-002"] ∧
      (∀ id, w.group.pending id = none) ∧
      baseline (loadsOf bought) (bought.map eventOf) = some (w.store.projection "acct_123") := by
  have htexts : (bought.map Purchase.text).Nodup := by decide +kernel
  have hshape : AllShaped (loadsOf bought) "acct_123" (bought.map eventOf) := by
    intro e he
    obtain ⟨p, hp, rfl⟩ := List.mem_map.mp he
    have hacc : p.account = "acct_123" := by
      obtain rfl | rfl := List.mem_pair.mp hp <;> rfl
    exact ⟨p.json, hacc ▸ shaped_eventOf htexts hp⟩
  have hinit : Started "acct_123" (bought.map eventOf) seeded :=
    ⟨⟨_, seedOutbox_ok (by decide), rfl⟩, rfl, ⟨rfl, fun _ => rfl, rfl⟩, rfl, rfl, rfl, rfl⟩
  obtain ⟨w, hw, hexited⟩ := Runs.Reach.exists_of_run
    (step (loadsOf bought) (fun _ => "") ⟨0, 3⟩) Runs.anyStep
    (Started "acct_123" (bought.map eventOf)) bothKilled (·.consumerExited) hinit
    (by decide +kernel)
  exact ⟨w, hw, hexited, kill_restart_exact hshape (by decide) rfl hw hexited⟩

end TradePulse.Poc
