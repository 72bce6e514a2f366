import TradePulse.Outbox.Consumption

/-! # Every committed trade is applied exactly once

Whatever is retried, published twice, delivered again or replayed, and wherever
the ledger, the relay or the consumer is cut off, each event is applied at most
once; and each committed trade is, as soon as nothing is unsent, unread or
pending, provided that no replay starts behind an entry that is still to be
applied. -/
namespace TradePulse.Outbox
open TradePulse.Core TradePulse.Core.StreamLog TradePulse.Core.Runs

/-! ## The consumer beside its group -/

/-- What the group and the events handed out are after a call. -/
def Act.After (P : ConsumerGroup (Envelope LedgerData) → List (Envelope LedgerData) → Prop)
    (g : ConsumerGroup (Envelope LedgerData)) (xs : List (Envelope LedgerData)) : Act → Prop
  | .poll false => P (g.takeNew 10) (xs ++ (g.unread 10).map Prod.snd)
  | .poll true => P (g.readgroup 10) xs
  | .recover => P (g.ackAll (g.pendingEntries.map Prod.fst)) (xs ++ g.pendingEntries.map Prod.snd)
  | .setid start => P (g.recreate start.toNat) xs
  | .post_trade .. | .relay_outbox .. | .consume => True

/-- The group of the consumer and what it was handed meet `P`. -/
def Consumes (P : ConsumerGroup (Envelope LedgerData) → List (Envelope LedgerData) → Prop)
    (w : World) : Prop :=
  ∀ c, w.consumer = some c → ∃ g xs, Refines w.bus STREAM GROUP g ∧ Follows c xs ∧ P g xs

section Consumes

variable {P : ConsumerGroup (Envelope LedgerData) → List (Envelope LedgerData) → Prop}
  {w w' : World}

theorem refines_xadds {b : Bus} {g : ConsumerGroup (Envelope LedgerData)}
    (h : Refines b STREAM GROUP g) (es : List (Envelope LedgerData)) :
    Refines (es.foldl (fun b e => (b.xadd STREAM e).2) b) STREAM GROUP (es.foldl .add g) := by
  induction es generalizing b g with
  | nil => exact h
  | cons e es ih => exact ih (h.xadd e).2

/-- The bus after the relay. -/
theorem relayTo_bus (inject_dup : Bool) (n : Nat) (l : Ledger) (b : Bus) :
    ∃ es : List (Envelope LedgerData), (relayTo id STREAM inject_dup n l b).2 =
      es.foldl (fun b e => (b.xadd STREAM e).2) b :=
  ⟨_, (foldl_effects id STREAM _ l b).2.2.2⟩

theorem Consumes.step (h : Consumes P w) {log : List (Envelope LedgerData)}
    (hlog : w.bus.entries STREAM = after log 0)
    (hcreate : P ⟨log, 0, fun _ => none, 0, []⟩ []) (hadd : ∀ g xs e, P g xs → P (g.add e) xs)
    {a : Act} (hact : ∀ c g xs, w.consumer = some c → Refines w.bus STREAM GROUP g →
      Follows c xs → P g xs → a.After P g xs) (hstep : step a w = some w') : Consumes P w' := by
  intro c' hc'
  cases a with
  | post_trade req crash_point d =>
    cases hstep
    exact h c' hc'
  | relay_outbox inject_dup effects =>
    cases hstep
    obtain ⟨g, xs, href, hfollows, hP⟩ := h c' hc'
    obtain ⟨es, hbus⟩ := relayTo_bus inject_dup effects w.ledger w.bus
    refine ⟨es.foldl .add g, xs, ?_, hfollows, ?_⟩
    · change Refines (relayTo id STREAM inject_dup effects w.ledger w.bus).2 STREAM GROUP _
      rw [hbus]
      exact refines_xadds href es
    · clear hbus href
      induction es generalizing g with
      | nil => exact hP
      | cons e es ih => exact ih (g.add e) (hadd g xs e hP)
  | consume =>
    cases hstep
    cases hc'
    exact ⟨_, [], Refines.xgroup_create hlog 0, Follows.new, hcreate⟩
  | poll crash_before_ack =>
    obtain ⟨c, hc, r, hr, rfl⟩ := step_poll hstep
    cases hc'
    obtain ⟨g, xs, href, hfollows, hP⟩ := h c hc
    have hafter := hact c g xs hc href hfollows hP
    cases crash_before_ack with
    | false =>
      obtain ⟨b', hpoll, href', -⟩ := RiskConsumer.poll_ok href c
      cases hpoll.symm.trans hr
      exact ⟨_, _, href', hfollows.notes _, hafter⟩
    | true =>
      obtain ⟨res, b', hpoll, href', -⟩ := RiskConsumer.poll_crash href c
      cases hpoll.symm.trans hr
      exact ⟨_, xs, href', hfollows, hafter⟩
  | recover =>
    obtain ⟨c, hc, s, hs, rfl⟩ := step_recover hstep
    cases hc'
    obtain ⟨g, xs, href, hfollows, hP⟩ := h c hc
    obtain ⟨b', hrecover, href', -⟩ := RiskConsumer.recover_ok href c
    cases hrecover.symm.trans hs
    exact ⟨_, _, href', hfollows.notes _, hact c g xs hc href hfollows hP⟩
  | setid start =>
    cases hstep
    obtain ⟨g, xs, href, hfollows, hP⟩ := h c' hc'
    exact ⟨_, xs, href.setid start, hfollows, hact c' g xs hc' href hfollows hP⟩

end Consumes

/-! ## The outbox beside the stream -/

/-- The stream has the events of the outbox. -/
def Wired (w : World) : Prop :=
  w.ledger.Sound ∧ ∃ log, w.bus.entries STREAM = after log 0 ∧
    Relayed id w.ledger.db.outbox_events log

theorem Db.Books.keyed {db : Db} (h : db.Books) : Keyed id db.outbox_events :=
  ⟨h.payloads, h.event_ids⟩

theorem entries_xadds {b : Bus} {log : List (Envelope LedgerData)}
    (h : b.entries STREAM = after log 0) (es : List (Envelope LedgerData)) :
    (es.foldl (fun b e => (b.xadd STREAM e).2) b).entries STREAM = after (log ++ es) 0 := by
  induction es generalizing b log with
  | nil => rwa [List.append_nil]
  | cons e es ih =>
    have hrest := ih (StreamBus.entries_xadd h e)
    rwa [List.append_assoc, List.singleton_append] at hrest

theorem Relayed.post_trade {δ : Type} {loads : Envelope LedgerData → Envelope δ} {l : Ledger}
    (hl : l.Sound) {log : List (Envelope δ)} (h : Relayed loads l.db.outbox_events log) {req : Req}
    {d : Draws} (hfresh : Ledger.Fresh l.db d) (crash_point : Option CrashPoint) : Relayed loads
      (Ledger.exec (Ledger.post_trade req crash_point d) l).2.db.outbox_events log := by
  obtain ⟨db, committed⟩ := l
  cases (show committed = db from hl.1)
  have houtcome : Ledger.Outcome db req crash_point d _ :=
    Ledger.post_trade_outcome hfresh crash_point
  generalize Ledger.exec (Ledger.post_trade req crash_point d) ⟨db, db⟩ = r at houtcome ⊢
  cases houtcome with
  | replay | unknown | rejected | undone => exact h
  | posted => exact h.insert rfl

theorem wired_of_start {w : World} (h : World.start w) : Wired w := by
  subst h
  exact ⟨⟨rfl, Db.Books.new⟩, [], rfl, Relayed.nil⟩

theorem Wired.step {w w' : World} (h : Wired w) {a : Act} (hfresh : Fresh w a)
    (hstep : step a w = some w') : Wired w' := by
  obtain ⟨hsound, log, hlog, hrelayed⟩ := h
  cases a with
  | post_trade req crash_point d =>
    cases hstep
    exact ⟨hsound.post_trade hfresh crash_point, log, hlog,
      hrelayed.post_trade hsound hfresh crash_point⟩
  | relay_outbox inject_dup effects =>
    cases hstep
    have heffects := hrelayed.effects hsound.2.keyed inject_dup effects
    obtain ⟨hrows, -, -, hbus⟩ := foldl_effects id STREAM
      ((w.ledger.unsent_outbox.flatMap (rowEffects inject_dup)).take effects) w.ledger w.bus
    refine ⟨hsound.relayTo STREAM inject_dup effects w.bus, log ++ (published
      ((w.ledger.unsent_outbox.flatMap (rowEffects inject_dup)).take effects)).map id, ?_, ?_⟩
    · change (relayTo id STREAM inject_dup effects w.ledger w.bus).2.entries STREAM = _
      rw [relayTo, hbus]
      exact entries_xadds hlog _
    · change Relayed id (relayTo id STREAM inject_dup effects w.ledger w.bus).1.db.outbox_events _
      rw [relayTo, hrows]
      exact heffects
  | consume =>
    cases hstep
    exact ⟨hsound, log, (StreamBus.entries_xgroup_create ..).trans hlog, hrelayed⟩
  | poll crash_before_ack =>
    obtain ⟨c, -, r, hr, rfl⟩ := step_poll hstep
    refine ⟨hsound, log, ?_, hrelayed⟩
    rw [StreamBus.entries, (RiskConsumer.only_poll hr).streams]
    exact hlog
  | recover =>
    obtain ⟨c, -, s, hs, rfl⟩ := step_recover hstep
    refine ⟨hsound, log, ?_, hrelayed⟩
    rw [StreamBus.entries, (RiskConsumer.only_recover hs).streams]
    exact hlog
  | setid start =>
    cases hstep
    exact ⟨hsound, log, hlog, hrelayed⟩

/-! ## At most once, and at least once -/

/-- Everything handed out is on the stream. -/
def OnStream (g : ConsumerGroup (Envelope LedgerData)) (xs : List (Envelope LedgerData)) : Prop :=
  ∀ x ∈ xs, x ∈ g.log

/-- What the cursor has passed is pending or was handed out. -/
structure Covers (g : ConsumerGroup (Envelope LedgerData)) (xs : List (Envelope LedgerData)) :
    Prop where
  cursor : g.next ≤ g.log.length
  passed : ∀ e ∈ after g.log 0, e.1 ≤ g.next → g.pending e.1 = none →
    e.2.event_id ∈ xs.map (·.event_id)

/-- A replay starts on the stream, and behind it all entries have been applied. -/
def NoSkip (w : World) : Act → Prop
  | .setid start => start.toNat ≤ w.bus.stream_len STREAM ∧ ∀ c ∈ w.consumer,
      ∀ e ∈ (w.bus.entries STREAM).take start.toNat, e.2.event_id ∈ c.seen
  | _ => True

instance (w : World) : ∀ a : Act, Decidable (NoSkip w a)
  | .setid start => inferInstanceAs (Decidable (_ ≤ w.bus.stream_len STREAM ∧ ∀ c ∈ w.consumer,
      ∀ e ∈ (w.bus.entries STREAM).take start.toNat, e.2.event_id ∈ c.seen))
  | .post_trade .. | .relay_outbox .. | .consume | .poll _ | .recover => .isTrue trivial

def Admitted (w : World) (a : Act) : Prop := Fresh w a ∧ NoSkip w a

instance (w : World) (a : Act) : Decidable (Admitted w a) := inferInstanceAs (Decidable (_ ∧ _))

theorem wired_of_reach {ok : World → Act → Prop} (hok : ∀ w a, ok w a → Fresh w a) {w : World}
    (h : Reach step ok World.start w) : Wired w :=
  h.invariant (fun _ => wired_of_start) fun w a _ hw ha hstep => hw.step (hok w a ha) hstep

section Steps

variable {g : ConsumerGroup (Envelope LedgerData)} {xs : List (Envelope LedgerData)}

theorem OnStream.add (h : OnStream g xs) (e : Envelope LedgerData) : OnStream (g.add e) xs :=
  fun x hx => List.mem_append_left _ (h x hx)

theorem OnStream.append (h : OnStream g xs) {entries : List (Nat × Envelope LedgerData)}
    (he : ConsumerGroup.InOrder g.log entries) : OnStream g (xs ++ entries.map Prod.snd) :=
  fun x hx => (List.mem_append.mp hx).elim (h x) he.mem_log

theorem OnStream.after (h : OnStream g xs) (a : Act) : a.After OnStream g xs := by
  cases a with
  | post_trade | relay_outbox | consume => trivial
  | poll crash_before_ack =>
    cases crash_before_ack with
    | false =>
      intro x hx
      rw [ConsumerGroup.log_takeNew]
      exact h.append (ConsumerGroup.inOrder_unread g 10) x hx
    | true => exact h
  | recover =>
    intro x hx
    rw [ConsumerGroup.log_ackAll]
    exact h.append ConsumerGroup.inOrder_pendingEntries x hx
  | setid start => exact h

theorem Covers.add (h : Covers g xs) (e : Envelope LedgerData) : Covers (g.add e) xs := by
  refine ⟨?_, fun x hx hle hnone => ?_⟩
  · rw [ConsumerGroup.log_add, List.length_append, ConsumerGroup.next_add]
    exact h.cursor.trans (Nat.le_add_right ..)
  · rw [ConsumerGroup.log_add, after_zero_append] at hx
    rcases List.mem_append.mp hx with hx | hx
    · exact h.passed x hx hle hnone
    · have hcursor := h.cursor
      rw [List.mem_singleton.mp hx, ConsumerGroup.next_add] at hle
      omega

theorem unread_le (h : Covers g xs) (n : Nat) : g.next + (g.unread n).length ≤ g.log.length := by
  have hlen : (g.unread n).length ≤ (StreamLog.after g.log g.next).length :=
    List.length_take_le' ..
  have hcursor := h.cursor
  rw [length_after] at hlen
  omega

/-- What is not among the entries read was passed before. -/
theorem le_next_of_not_unread {e : Nat × Envelope LedgerData} {n : Nat}
    (hle : e.1 ≤ g.next + (g.unread n).length) (hid : e.1 ∉ (g.unread n).map Prod.fst) :
    e.1 ≤ g.next := by
  rw [ConsumerGroup.unread_ids, List.mem_range'_1] at hid
  omega

theorem Covers.takeNew (h : Covers g xs) (n : Nat) :
    Covers (g.takeNew n) (xs ++ (g.unread n).map Prod.snd) := by
  refine ⟨?_, fun e he hle hnone => ?_⟩
  · rw [ConsumerGroup.log_takeNew, ConsumerGroup.next_takeNew]
    exact unread_le h n
  · rw [ConsumerGroup.log_takeNew] at he
    rw [ConsumerGroup.next_takeNew] at hle
    rw [ConsumerGroup.pending_takeNew] at hnone
    rw [List.map_append, List.mem_append]
    split at hnone
    · rename_i hid
      have hmem := (ConsumerGroup.inOrder_unread g n).mem_of_id he hid
      exact .inr (List.mem_map_of_mem (List.mem_map_of_mem hmem))
    · rename_i hid
      exact .inl (h.passed e he (le_next_of_not_unread hle hid) hnone)

theorem Covers.readgroup (h : Covers g xs) (n : Nat) : Covers (g.readgroup n) xs := by
  refine ⟨unread_le h n, fun e he hle hnone => ?_⟩
  simp only [ConsumerGroup.readgroup, ConsumerGroup.deliver] at hnone
  split at hnone
  · cases hnone
  · rename_i hid
    exact h.passed e he (le_next_of_not_unread hle hid) hnone

theorem Covers.recover (h : Covers g xs) : Covers (g.ackAll (g.pendingEntries.map Prod.fst))
    (xs ++ g.pendingEntries.map Prod.snd) := by
  refine ⟨?_, fun e he hle hnone => ?_⟩
  · rw [ConsumerGroup.log_ackAll, ConsumerGroup.next_ackAll]
    exact h.cursor
  · rw [ConsumerGroup.log_ackAll] at he
    rw [ConsumerGroup.next_ackAll] at hle
    rw [ConsumerGroup.pending_ackAll] at hnone
    rw [List.map_append, List.mem_append]
    split at hnone
    · rename_i hid
      have hmem := ConsumerGroup.inOrder_pendingEntries.mem_of_id he hid
      exact .inr (List.mem_map_of_mem (List.mem_map_of_mem hmem))
    · exact .inl (h.passed e he hle hnone)

theorem Covers.after {w : World} {c : RiskConsumer} (h : Covers g xs) (hc : w.consumer = some c)
    (href : Refines w.bus STREAM GROUP g) (hfollows : Follows c xs) {a : Act}
    (ha : NoSkip w a) : a.After Covers g xs := by
  cases a with
  | post_trade | relay_outbox | consume => trivial
  | poll crash_before_ack =>
    cases crash_before_ack with
    | false => exact h.takeNew 10
    | true => exact h.readgroup 10
  | recover => exact h.recover
  | setid start =>
    obtain ⟨hstart, hseen⟩ := ha
    rw [href.stream_len] at hstart
    refine ⟨hstart, fun e he hle _ => ?_⟩
    have hmem : e ∈ (w.bus.entries STREAM).take start.toNat := by
      rw [href.entries]
      rw [ConsumerGroup.log_recreate, ← take_append_after g.log start.toNat] at he
      rcases List.mem_append.mp he with he | he
      · exact he
      · have hlt := (mem_after.mp he).1
        rw [ConsumerGroup.next_recreate] at hle
        omega
    exact hfollows.mem_seen.mp (hseen c hc e hmem)

end Steps

/-- Nothing is unsent, and nothing is unread or pending. -/
def Quiet (w : World) : Prop :=
  w.ledger.unsent_outbox = [] ∧ ∀ g ∈ w.bus.groups (STREAM, GROUP),
    g.pel = [] ∧ w.bus.stream_len STREAM ≤ g.last.toNat

instance : DecidablePred Quiet := fun w =>
  inferInstanceAs (Decidable (w.ledger.unsent_outbox = [] ∧ ∀ g ∈ w.bus.groups (STREAM, GROUP),
    g.pel = [] ∧ w.bus.stream_len STREAM ≤ g.last.toNat))

theorem onStream_of_reach {w : World} (h : Reach step Fresh World.start w) : Consumes OnStream w := by
  refine h.invariant_under (fun _ h => wired_of_reach (fun _ _ h => h) h) ?_ ?_
  · rintro w rfl c hc
    cases hc
  · intro w a w' hw _ hI _ hstep
    obtain ⟨-, log, hlog, -⟩ := hw
    exact hI.step hlog (fun _ hx => absurd hx List.not_mem_nil) (fun _ _ e h => h.add e)
      (fun _ _ _ _ _ _ hP => hP.after a) hstep

theorem covers_of_reach {w : World} (h : Reach step Admitted World.start w) :
    Consumes Covers w := by
  refine h.invariant_under (fun _ h => wired_of_reach (fun _ _ h => h.1) h) ?_ ?_
  · rintro w rfl c hc
    cases hc
  · intro w a w' hw _ hI ha hstep
    obtain ⟨-, log, hlog, -⟩ := hw
    refine hI.step hlog ⟨Nat.zero_le _, fun e he hle => ?_⟩ (fun _ _ e h => h.add e)
      (fun _ _ _ hc href hfollows hP => hP.after hc href hfollows ha.2) hstep
    have hpos := (mem_after.mp he).1
    exact absurd hle (Nat.not_le.mpr hpos)

/-- Once all rows are sent, the events on the stream are those of the outbox. -/
theorem Relayed.all_sent {δ : Type} {loads : Envelope LedgerData → Envelope δ}
    {rows : List OutboxRow} {log : List (Envelope δ)} (h : Relayed loads rows log)
    (hsent : rows.filter (fun row => !row.sent) = []) : distinct log = payloads loads rows := by
  obtain ⟨done, todo, k, rfl, h⟩ := h
  cases todo with
  | nil =>
    rw [h.first, List.append_nil, List.take_of_length_le]
    rw [payloads, List.length_map]
    exact h.length
  | cons r todo =>
    have hr : r ∈ (done ++ r :: todo).filter fun row => !row.sent :=
      List.mem_filter.mpr ⟨by simp, by rw [h.unsent r List.mem_cons_self]; rfl⟩
    rw [hsent] at hr
    exact absurd hr List.not_mem_nil

theorem Db.Books.ids_payloads {db : Db} (h : db.Books) :
    (Outbox.payloads id db.outbox_events).map (·.event_id) = db.outbox_events.map (·.event_id) :=
  h.keyed.ids_payloads

/-- The events on the stream are events of the outbox. -/
theorem Relayed.mem_ids {rows : List OutboxRow} {log : List (Envelope LedgerData)}
    (h : Relayed id rows log) {id' : String} (hid : id' ∈ log.map (·.event_id)) :
    id' ∈ (payloads id rows).map (·.event_id) := by
  obtain ⟨done, todo, k, rfl, h⟩ := h
  have hdistinct := mem_firstsBy_keys.mpr hid
  rw [← distinct, h.first, List.map_take] at hdistinct
  exact List.mem_of_mem_take hdistinct

/-- Nothing is pending in a quiet world, and everything has been passed. -/
theorem Quiet.passed {w : World} (hq : Quiet w) {g : ConsumerGroup (Envelope LedgerData)}
    (href : Refines w.bus STREAM GROUP g) {e : Nat × Envelope LedgerData}
    (he : e ∈ after g.log 0) : e.1 ≤ g.next ∧ g.pending e.1 = none := by
  obtain ⟨last, hgroup, hlast⟩ := href.cursor
  obtain ⟨hpel, hle⟩ : g.pendingEntries = [] ∧ w.bus.stream_len STREAM ≤ last.toNat :=
    hq.2 _ hgroup
  rw [href.stream_len] at hle
  have hget := (mem_after.mp he).2
  have hlt := (List.getElem?_eq_some_iff.mp hget).1
  have hpos := (mem_after.mp he).1
  refine ⟨by omega, ?_⟩
  cases hp : g.pending e.1 with
  | none => rfl
  | some t =>
    have hmem : e ∈ g.pendingEntries := List.mem_filter.mpr ⟨he, by rw [hp]; rfl⟩
    rw [hpel] at hmem
    exact absurd hmem List.not_mem_nil

theorem length_event_ids {w : World} (hbooks : w.ledger.db.Books) :
    (w.ledger.db.outbox_events.map (·.event_id)).length = w.ledger.je_count := by
  rw [List.length_map, Ledger.je_count, ← hbooks.length_events, Db.events, List.length_map]

/-- What has been applied is on the stream, so it is in the outbox. -/
theorem seen_of_reach {w : World} (h : Reach step Admitted World.start w) {c : RiskConsumer}
    (hc : w.consumer = some c) :
    c.seen.Nodup ∧ c.applied = c.seen.length ∧
      ∀ id ∈ c.seen, id ∈ w.ledger.db.outbox_events.map (·.event_id) := by
  obtain ⟨⟨-, hbooks⟩, log, hlog, hrelayed⟩ := wired_of_reach (fun _ _ h => h.1) h
  obtain ⟨g, xs, href, hfollows, hon⟩ :=
    onStream_of_reach (h.mono (fun _ h => h) fun _ _ h => h.1) c hc
  have hglog : g.log = log := after_zero_inj (href.entries.symm.trans hlog)
  refine ⟨?_, ?_, fun id hid => ?_⟩
  · rw [hfollows.seen]
    exact nodup_firstsBy_keys
  · rw [hfollows.seen, List.length_map, hfollows.applied]
  · obtain ⟨x, hx, rfl⟩ := List.mem_map.mp (hfollows.mem_seen.mp hid)
    rw [← hbooks.ids_payloads]
    exact hrelayed.mem_ids (List.mem_map_of_mem (hglog ▸ hon x hx))

/-- What is sent, read and acknowledged has been applied. -/
theorem mem_seen_of_quiet {w : World} (h : Reach step Admitted World.start w) {c : RiskConsumer}
    (hc : w.consumer = some c) (hq : Quiet w) {id : String}
    (hid : id ∈ w.ledger.db.outbox_events.map (·.event_id)) : id ∈ c.seen := by
  obtain ⟨⟨-, hbooks⟩, log, hlog, hrelayed⟩ := wired_of_reach (fun _ _ h => h.1) h
  obtain ⟨g, xs, href, hfollows, hcovers⟩ := covers_of_reach h c hc
  have hglog : g.log = log := after_zero_inj (href.entries.symm.trans hlog)
  have hsent : w.ledger.db.outbox_events.filter (fun row => !row.sent) = [] :=
    List.map_eq_nil_iff.mp hq.1
  rw [← hbooks.ids_payloads, ← hrelayed.all_sent hsent, distinct, mem_firstsBy_keys] at hid
  obtain ⟨x, hx, rfl⟩ := List.mem_map.mp hid
  obtain ⟨i, hi, rfl⟩ := List.mem_iff_getElem.mp hx
  have he : (i + 1, log[i]) ∈ after g.log 0 := by
    rw [hglog, mem_after]
    exact ⟨Nat.succ_pos i, List.getElem?_eq_getElem hi⟩
  obtain ⟨hnext, hnone⟩ := hq.passed href he
  exact hfollows.mem_seen.mpr (hcovers.passed _ he hnext hnone)

theorem applied_of_quiet {w : World} (h : Reach step Admitted World.start w) {c : RiskConsumer}
    (hc : w.consumer = some c) (hq : Quiet w) : c.applied = w.ledger.je_count := by
  obtain ⟨⟨-, hbooks⟩, -⟩ := wired_of_reach (fun _ _ h => h.1) h
  obtain ⟨hnodup, hlen, hsub⟩ := seen_of_reach h hc
  have hcount := length_event_ids hbooks
  have hle := (List.subperm_of_subset hnodup hsub).length_le
  have hge := (List.subperm_of_subset hbooks.event_ids fun _ => mem_seen_of_quiet h hc hq).length_le
  omega

/-- **Exactly once.** In every run the consumer applies events of the outbox
only, each at most once; and once everything is sent, read and acknowledged, it
has applied as many as there are journal entries. -/
theorem exactly_once {w : World} (h : Reach step Admitted World.start w) {c : RiskConsumer}
    (hc : w.consumer = some c) :
    c.seen.Nodup ∧ c.applied = c.seen.length ∧
      (∀ id ∈ c.seen, id ∈ w.ledger.committed.outbox_events.map (·.event_id)) ∧
      c.applied ≤ w.ledger.je_count ∧
      (Quiet w → c.applied = w.ledger.je_count ∧
        ∀ id ∈ w.ledger.committed.outbox_events.map (·.event_id), id ∈ c.seen) := by
  obtain ⟨⟨hcommitted, hbooks⟩, -⟩ := wired_of_reach (fun _ _ h => h.1) h
  obtain ⟨hnodup, hlen, hsub⟩ := seen_of_reach h hc
  have hle : c.seen.length ≤ w.ledger.je_count :=
    length_event_ids hbooks ▸ (List.subperm_of_subset hnodup hsub).length_le
  rw [hcommitted]
  exact ⟨hnodup, hlen, hsub, hlen ▸ hle, fun hq =>
    ⟨applied_of_quiet h hc hq, fun _ => mem_seen_of_quiet h hc hq⟩⟩

theorem exactly_once_of_scenario : ∃ w : World, ∃ c, w.consumer = some c ∧ Quiet w ∧
    c.applied = w.ledger.je_count := by
  obtain ⟨w, hreach, hw⟩ := Reach.exists_of_run step Admitted World.start scenario
    (fun w : World => w.consumer.isSome && decide (Quiet w)) (s := ⟨.new, .new, none⟩) rfl
    (by decide +kernel)
  obtain ⟨hc, hq⟩ := Bool.and_eq_true_iff.mp hw
  obtain ⟨c, hc⟩ := Option.isSome_iff_exists.mp hc
  have hquiet := of_decide_eq_true hq
  exact ⟨w, c, hc, hquiet, ((exactly_once hreach hc).2.2.2.2 hquiet).1⟩

end TradePulse.Outbox
