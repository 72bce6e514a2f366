import TradePulse.Core.Mailbox
import TradePulse.Gateway.Broker

/-! # What the clients of the broker receive

To its client the channel is a mailbox: publishes come to it, in the order of
the publishes, and the client receives. What it has received and what waits
depends on nothing else. -/
namespace TradePulse.Gateway
open TradePulse.Core TradePulse.Core.Runs

/-! ## Statement -/

/-- What the client of `ch` sees of an event. -/
def BrokerEvent.seenBy (ch : Chan) : BrokerEvent → Option (Mailbox.Act Message)
  | .offered c msg _ => if c = ch then some (.offer msg) else none
  | .received c _ => if c = ch then some .receive else none
  | _ => none

/-- The publishes that have come to the client, and its own receives. -/
def view (ch : Chan) (es : List BrokerEvent) : List (Mailbox.Act Message) :=
  es.filterMap (·.seenBy ch)

def receivedBy (ch : Chan) (es : List BrokerEvent) : List Message :=
  es.filterMap fun
    | .received c msg => if c = ch then some msg else none
    | _ => none

/-- The messages that have come to the client, each with how many its buffer
held then. -/
def heldAt (ch : Chan) (es : List BrokerEvent) : List (Message × Nat) :=
  es.filterMap fun
    | .offered c msg held => if c = ch then some (msg, held) else none
    | _ => none

/-- Whether the client is subscribed, and what was published while it was. -/
def noteSpan (ch : Chan) : Bool × List Message → BrokerEvent → Bool × List Message
  | (on, ms), .subscribed c => (on || c = ch, ms)
  | (on, ms), .unsubscribed c => (on && c ≠ ch, ms)
  | (on, ms), .published msg => (on, if on then ms ++ [msg] else ms)
  | s, _ => s

/-- What was published between the client's subscribe and its unsubscribe. -/
def span (ch : Chan) (es : List BrokerEvent) : List Message :=
  (es.foldl (noteSpan ch) (false, [])).2

/-- The message of a publish under way that has not come to the client yet. -/
def Broker.underway (b : Broker) (ch : Chan) : List Message :=
  match b.pc .tailer with
  | .publishRange msg rest => if ch ∈ rest then [msg] else []
  | _ => []

/-- What the broker does for the client of `ch`. -/
structure Delivery (w : BrokerRun) (ch : Chan) : Prop where
  /-- What was published while it was subscribed has come to it. -/
  span : (heldAt ch w.2).map (·.1) ++ w.1.underway ch = span ch w.2
  /-- It has received or will receive, in order, what found its buffer not full. -/
  kept : receivedBy ch w.2 ++ (w.1.channels ch).buffer =
    ((heldAt ch w.2).filter (·.2 < capacity)).map (·.1)
  /-- The rest found it full. -/
  full : ∀ x ∈ heldAt ch w.2, x.2 < capacity ∨ x.2 = capacity
  subsequence : (receivedBy ch w.2 ++ (w.1.channels ch).buffer).Sublist (Gateway.span ch w.2)
  /-- The client sees the publishes that have come to it, and its own receives. -/
  seen : Mailbox.offers (view ch w.2) = (heldAt ch w.2).map (·.1)
  /-- What it has received and what waits is a function of these alone. -/
  isolated : ⟨receivedBy ch w.2, (w.1.channels ch).buffer⟩ = Mailbox.run capacity (view ch w.2)

/-! ## What the clients see -/

/-- The invariant of what has happened for the client of `ch`. -/
structure Traced (w : BrokerRun) (ch : Chan) : Prop where
  mailbox : Mailbox.run capacity (view ch w.2) = ⟨receivedBy ch w.2, (w.1.channels ch).buffer⟩
  found : Mailbox.found capacity (view ch w.2) = heldAt ch w.2
  listed : (w.2.foldl (noteSpan ch) (false, [])).1 = decide (ch ∈ w.1.clients)
  span : (heldAt ch w.2).map (·.1) ++ w.1.underway ch = span ch w.2

theorem offers_view (ch : Chan) (es : List BrokerEvent) :
    Mailbox.offers (view ch es) = (heldAt ch es).map (·.1) := by
  induction es with
  | nil => rfl
  | cons e es ih =>
    cases e with
    | subscribed c => exact ih
    | unsubscribed c => exact ih
    | published msg => exact ih
    | offered c msg held =>
      by_cases hc : c = ch
      · simpa [view, heldAt, Mailbox.offers, BrokerEvent.seenBy, hc] using ih
      · simpa [view, heldAt, Mailbox.offers, BrokerEvent.seenBy, hc] using ih
    | received c msg =>
      by_cases hc : c = ch
      · simpa [view, heldAt, Mailbox.offers, BrokerEvent.seenBy, hc] using ih
      · simpa [view, heldAt, Mailbox.offers, BrokerEvent.seenBy, hc] using ih

theorem Traced.kept {w : BrokerRun} {ch : Chan} (h : Traced w ch) :
    receivedBy ch w.2 ++ (w.1.channels ch).buffer =
      ((heldAt ch w.2).filter (·.2 < capacity)).map (·.1) := by
  have hkept : (Mailbox.run capacity (view ch w.2)).kept = _ := Mailbox.kept_run (view ch w.2)
  rw [h.mailbox, h.found] at hkept
  exact hkept

theorem Traced.delivery {w : BrokerRun} {ch : Chan} (h : Traced w ch) : Delivery w ch where
  span := h.span
  kept := h.kept
  full x hx := by
    rw [← h.found] at hx
    exact Nat.lt_or_eq_of_le (Mailbox.found_le _ x hx)
  subsequence := by
    rw [h.kept, ← h.span]
    exact (List.filter_sublist.map _).trans (List.sublist_append_left ..)
  seen := offers_view ch w.2
  isolated := h.mailbox.symm

section Trace

variable {b b' : Broker} {es τ : List BrokerEvent} {ch : Chan} {t : Tid} {p : Pc}

theorem underway_eq_nil (h : (b.pc .tailer).ranges? = none) : b.underway ch = [] := by
  unfold Broker.underway
  split
  next msg rest hp =>
    rw [hp] at h
    cases h
  next => rfl

theorem underway_range {msg : Message} {rest : Finset Chan}
    (h : b.pc .tailer = .publishRange msg rest) :
    b.underway ch = if ch ∈ rest then [msg] else [] := by
  rw [Broker.underway, h]

/-- A goroutine that is not in the range of a publish moves on. -/
theorem underway_goto (h : (b.pc t).ranges? = none) (hp : p.ranges? = none)
    (hpc : b'.pc = Function.update b.pc t p) : b'.underway ch = b.underway ch := by
  by_cases ht : t = .tailer
  · subst ht
    rw [underway_eq_nil h, underway_eq_nil]
    rwa [hpc, Function.update_self]
  · have hsame : b'.pc .tailer = b.pc .tailer := by
      rw [hpc, Function.update_of_ne (Ne.symm ht)]
    rw [Broker.underway, hsame, Broker.underway]

/-- Nothing has happened for the client. -/
theorem Traced.quiet (h : Traced (b, τ) ch)
    (hbuffer : (b'.channels ch).buffer = (b.channels ch).buffer)
    (hclients : ch ∈ b'.clients ↔ ch ∈ b.clients) (hunderway : b'.underway ch = b.underway ch) :
    Traced (b', τ ++ []) ch := by
  rw [List.append_nil]
  refine ⟨?_, h.found, ?_, ?_⟩
  · show Mailbox.run capacity (view ch τ) = ⟨receivedBy ch τ, (b'.channels ch).buffer⟩
    rw [hbuffer]
    exact h.mailbox
  · show _ = decide (ch ∈ b'.clients)
    rw [decide_eq_decide.mpr hclients]
    exact h.listed
  · show _ ++ b'.underway ch = _
    rw [hunderway]
    exact h.span

/-- Something has happened that the client does not see. -/
theorem Traced.unseen (h : Traced (b, τ) ch) {e : BrokerEvent}
    (hunseen : view ch [e] = [] ∧ receivedBy ch [e] = [] ∧ heldAt ch [e] = [])
    (hbuffer : (b'.channels ch).buffer = (b.channels ch).buffer)
    (hnote : noteSpan ch (decide (ch ∈ b.clients), Gateway.span ch τ) e =
      (decide (ch ∈ b'.clients), (heldAt ch τ).map (·.1) ++ b'.underway ch)) :
    Traced (b', τ ++ [e]) ch := by
  obtain ⟨hview, hreceived, hheld⟩ := hunseen
  have hv : view ch (τ ++ [e]) = view ch τ := by
    rw [view, List.filterMap_append]
    exact (congrArg (view ch τ ++ ·) hview).trans (List.append_nil _)
  have hr : receivedBy ch (τ ++ [e]) = receivedBy ch τ := by
    rw [receivedBy, List.filterMap_append]
    exact (congrArg (receivedBy ch τ ++ ·) hreceived).trans (List.append_nil _)
  have hh : heldAt ch (τ ++ [e]) = heldAt ch τ := by
    rw [heldAt, List.filterMap_append]
    exact (congrArg (heldAt ch τ ++ ·) hheld).trans (List.append_nil _)
  have hfold : (τ ++ [e]).foldl (noteSpan ch) (false, []) =
      (decide (ch ∈ b'.clients), (heldAt ch τ).map (·.1) ++ b'.underway ch) := by
    have hlisted : τ.foldl (noteSpan ch) (false, []) =
        (decide (ch ∈ b.clients), Gateway.span ch τ) := Prod.ext h.listed rfl
    rw [List.foldl_append, hlisted]
    exact hnote
  refine ⟨?_, ?_, congrArg Prod.fst hfold, ?_⟩
  · show Mailbox.run capacity (view ch (τ ++ [e])) = ⟨receivedBy ch (τ ++ [e]), _⟩
    rw [hv, hr, hbuffer]
    exact h.mailbox
  · show Mailbox.found capacity (view ch (τ ++ [e])) = heldAt ch (τ ++ [e])
    rw [hv, hh]
    exact h.found
  · show (heldAt ch (τ ++ [e])).map (·.1) ++ b'.underway ch = Gateway.span ch (τ ++ [e])
    rw [hh]
    exact (congrArg Prod.snd hfold).symm

/-- A publish comes to the client. -/
theorem Traced.offered (h : Traced (b, τ) ch) {msg : Message}
    (hbuffer : (b'.channels ch).buffer = if (b.channels ch).buffer.length < capacity then
      (b.channels ch).buffer ++ [msg] else (b.channels ch).buffer)
    (hclients : b'.clients = b.clients) (hbefore : b.underway ch = [msg])
    (hafter : b'.underway ch = []) :
    Traced (b', τ ++ [.offered ch msg (b.channels ch).buffer.length]) ch := by
  have hmailbox : Mailbox.run capacity (view ch τ) = ⟨receivedBy ch τ, (b.channels ch).buffer⟩ :=
    h.mailbox
  have hv : view ch (τ ++ [.offered ch msg (b.channels ch).buffer.length]) =
      view ch τ ++ [.offer msg] := by
    simp [view, BrokerEvent.seenBy]
  have hr : receivedBy ch (τ ++ [.offered ch msg (b.channels ch).buffer.length]) =
      receivedBy ch τ := by
    simp [receivedBy]
  have hh : heldAt ch (τ ++ [.offered ch msg (b.channels ch).buffer.length]) =
      heldAt ch τ ++ [(msg, (b.channels ch).buffer.length)] := by
    simp [heldAt]
  refine ⟨?_, ?_, ?_, ?_⟩
  · show Mailbox.run capacity (view ch (τ ++ _)) = ⟨receivedBy ch (τ ++ _), _⟩
    rw [hv, hr, Mailbox.run_snoc, hmailbox, hbuffer, Mailbox.step]
    split <;> rfl
  · show Mailbox.found capacity (view ch (τ ++ _)) = heldAt ch (τ ++ _)
    rw [hv, hh, Mailbox.found_offer, hmailbox]
    exact congrArg (· ++ _) h.found
  · show ((τ ++ [_]).foldl (noteSpan ch) (false, [])).1 = decide (ch ∈ b'.clients)
    rw [List.foldl_append, hclients]
    exact h.listed
  · show (heldAt ch (τ ++ _)).map (·.1) ++ b'.underway ch = Gateway.span ch (τ ++ _)
    have hspan : (heldAt ch τ).map (·.1) ++ b.underway ch = Gateway.span ch τ := h.span
    rw [hbefore] at hspan
    rw [hh, hafter, List.map_append, List.append_nil, Gateway.span, List.foldl_append]
    exact hspan

/-- The client receives. -/
theorem Traced.received (h : Traced (b, τ) ch) {msg : Message} {rest : List Message}
    (hbuffer : (b.channels ch).buffer = msg :: rest) (hrest : (b'.channels ch).buffer = rest)
    (hclients : b'.clients = b.clients) (hunderway : b'.underway ch = b.underway ch) :
    Traced (b', τ ++ [.received ch msg]) ch := by
  have hmailbox : Mailbox.run capacity (view ch τ) = ⟨receivedBy ch τ, (b.channels ch).buffer⟩ :=
    h.mailbox
  have hv : view ch (τ ++ [.received ch msg]) = view ch τ ++ [.receive] := by
    simp [view, BrokerEvent.seenBy]
  have hr : receivedBy ch (τ ++ [.received ch msg]) = receivedBy ch τ ++ [msg] := by
    simp [receivedBy]
  have hh : heldAt ch (τ ++ [.received ch msg]) = heldAt ch τ := by
    simp [heldAt]
  refine ⟨?_, ?_, ?_, ?_⟩
  · show Mailbox.run capacity (view ch (τ ++ _)) = ⟨receivedBy ch (τ ++ _), _⟩
    rw [hv, hr, Mailbox.run_snoc, hmailbox, hbuffer, hrest]
    rfl
  · show Mailbox.found capacity (view ch (τ ++ _)) = heldAt ch (τ ++ _)
    rw [hv, hh, Mailbox.found_receive]
    exact h.found
  · show ((τ ++ [_]).foldl (noteSpan ch) (false, [])).1 = decide (ch ∈ b'.clients)
    rw [List.foldl_append, hclients]
    exact h.listed
  · show (heldAt ch (τ ++ _)).map (·.1) ++ b'.underway ch = Gateway.span ch (τ ++ _)
    rw [hh, hunderway, Gateway.span, List.foldl_append]
    exact h.span

end Trace

section Runs

variable {b b' : Broker} {es τ : List BrokerEvent} {ch : Chan}

/-- A statement of a call, as the client of `ch` sees it. -/
theorem Traced.next (ho : Orderly b) (h : Traced (b, τ) ch) {t : Tid}
    (hs : b.next t = some (b', es)) : Traced (b', τ ++ es) ch := by
  have hspan : (heldAt ch τ).map (·.1) ++ b.underway ch = Gateway.span ch τ := h.span
  unfold Broker.next at hs
  split at hs
  next => cases hs
  next c hp =>
    obtain ⟨b₁, hl, hs⟩ := Option.map_eq_some_iff.mp hs
    cases hs
    obtain ⟨-, -, rfl⟩ := lock_some hl
    exact h.quiet rfl Iff.rfl (underway_goto (by rw [hp]; rfl) rfl rfl)
  next c hp =>
    cases hs
    have hunderway : ({ b with clients := insert c b.clients }.goto t
        (.subscribeUnlock c)).underway ch = b.underway ch :=
      underway_goto (p := .subscribeUnlock c) (by rw [hp]; rfl) rfl rfl
    refine h.unseen ⟨rfl, rfl, rfl⟩ rfl ?_
    rw [hunderway, hspan]
    refine Prod.ext ?_ rfl
    simp [noteSpan, Broker.goto, Bool.or_comm, eq_comm]
  next c hp =>
    cases hs
    exact h.quiet rfl Iff.rfl (underway_goto (by rw [hp]; rfl) rfl rfl)
  next c hp =>
    cases hs
    exact h.quiet rfl Iff.rfl (underway_goto (by rw [hp]; rfl) rfl rfl)
  next c hp =>
    obtain ⟨b₁, hl, hs⟩ := Option.map_eq_some_iff.mp hs
    cases hs
    obtain ⟨-, -, rfl⟩ := lock_some hl
    exact h.quiet rfl Iff.rfl (underway_goto (by rw [hp]; rfl) rfl rfl)
  next c hp =>
    split at hs
    · cases hs
      have hunderway : ({ b with clients := b.clients.erase c }.goto t
          (.unsubscribeClose c)).underway ch = b.underway ch :=
        underway_goto (p := .unsubscribeClose c) (by rw [hp]; rfl) rfl rfl
      refine h.unseen ⟨rfl, rfl, rfl⟩ rfl ?_
      rw [hunderway, hspan]
      refine Prod.ext ?_ rfl
      simp [noteSpan, Broker.goto, Bool.and_comm, eq_comm]
    · cases hs
      exact h.quiet rfl Iff.rfl (underway_goto (by rw [hp]; rfl) rfl rfl)
  next c hp =>
    rw [((ho.places t).claims c (by rw [hp]; rfl)).2.2] at hs
    cases hs
    refine h.quiet ?_ Iff.rfl (underway_goto (by rw [hp]; rfl) rfl rfl)
    by_cases hc : ch = c
    · subst hc
      rw [goto_channels, setChannel_self]
    · rw [goto_channels, setChannel_of_ne _ _ _ hc]
  next msg hp =>
    obtain ⟨b₁, hl, hs⟩ := Option.map_eq_some_iff.mp hs
    cases hs
    obtain rfl : t = .tailer := (ho.places t).publishes (by rw [hp]; rfl)
    unfold Broker.rLock at hl
    split at hl
    · cases hl
      refine h.unseen ⟨rfl, rfl, rfl⟩ rfl (Prod.ext rfl ?_)
      rw [underway_eq_nil (by rw [hp]; rfl), List.append_nil] at hspan
      rw [underway_range (goto_pc_self ..), hspan]
      by_cases hmem : ch ∈ b.clients <;> simp [noteSpan, hmem]
    · cases hl
  next msg rest hp =>
    split at hs
    · rename_i hrest
      cases hs
      obtain rfl : t = .tailer := (ho.places t).publishes (by rw [hp]; rfl)
      refine h.quiet rfl Iff.rfl ?_
      rw [underway_range hp, hrest, underway_eq_nil]
      · rfl
      · rw [Broker.rUnlock, goto_pc_self]
        rfl
    · cases hs

theorem Traced.act (ho : Orderly b) (h : Traced (b, τ) ch) {a : BrokerAct}
    (hs : b.act a = some (b', es)) : Traced (b', τ ++ es) ch := by
  cases a with
  | subscribe n =>
    simp only [Broker.act] at hs
    split at hs
    · rename_i hidle
      cases hs
      exact h.quiet rfl Iff.rfl (underway_goto (by rw [hidle]; rfl) rfl rfl)
    · cases hs
  | unsubscribe n c =>
    simp only [Broker.act] at hs
    split at hs
    · rename_i hidle
      cases hs
      exact h.quiet rfl Iff.rfl (underway_goto (by rw [hidle.1]; rfl) rfl rfl)
    · cases hs
  | publish msg =>
    simp only [Broker.act] at hs
    split at hs
    · rename_i hidle
      cases hs
      exact h.quiet rfl Iff.rfl (underway_goto (by rw [hidle]; rfl) rfl rfl)
    · cases hs
  | next t => exact h.next ho hs
  | send c =>
    obtain ⟨msg, rest, hp, hmem, rfl, rfl⟩ := Broker.send_some ho hs
    by_cases hc : c = ch
    · subst hc
      refine h.offered (by rw [goto_channels, setChannel_self]) rfl ?_ ?_
      · rw [underway_range hp, if_pos hmem]
      · rw [underway_range (goto_pc_self ..), if_neg (Finset.notMem_erase c rest)]
    · refine h.unseen ⟨?_, rfl, ?_⟩ (by rw [goto_channels, setChannel_of_ne _ _ _ (Ne.symm hc)])
        (Prod.ext rfl ?_)
      · simp [view, BrokerEvent.seenBy, hc]
      · simp [heldAt, hc]
      · rw [underway_range (goto_pc_self ..), ← h.span, underway_range hp]
        simp [noteSpan, Ne.symm hc]
  | receive c =>
    obtain ⟨msg, rest, hbuffer, rfl, rfl⟩ := Broker.receive_some hs
    by_cases hc : c = ch
    · subst hc
      exact h.received hbuffer (by rw [setChannel_self]) rfl rfl
    · refine h.unseen ⟨?_, ?_, rfl⟩ (by rw [setChannel_of_ne _ _ _ (Ne.symm hc)])
        (Prod.ext rfl h.span.symm)
      · simp [view, BrokerEvent.seenBy, hc]
      · simp [receivedBy, hc]

theorem traced_new {w : BrokerRun} (h : newBroker w) (ch : Chan) : Traced w ch := by
  obtain ⟨-, hclients, hchannels, -, hpc, -, htrace⟩ := h
  refine ⟨?_, ?_, ?_, ?_⟩
  · rw [htrace, hchannels]
    rfl
  · rw [htrace]
    rfl
  · rw [htrace, hclients]
    rfl
  · rw [htrace, underway_eq_nil (by rw [hpc]; rfl)]
    rfl

/-- **What the broker delivers.** Whatever the order of the steps of any number
of clients and of the publisher, nothing is sent on a closed channel and no
channel is closed twice, and each client gets, in order, what was published
between its subscribe and its unsubscribe, less what found its buffer full. -/
theorem broker_delivers {w : BrokerRun} (h : Reach brokerStep anyStep newBroker w) :
    w.1.panicked = none ∧ ∀ ch, Delivery w ch := by
  have hinv := h.invariant (I := fun w => Orderly w.1 ∧ ∀ ch, Traced w ch)
    (fun w hw => ⟨orderly_new hw, traced_new hw⟩) ?_
  · exact ⟨hinv.1.panicked, fun ch => (hinv.2 ch).delivery⟩
  · intro w a w' hw _ hs
    unfold brokerStep at hs
    split at hs
    · cases hs
    · obtain ⟨r, hr, hs⟩ := Option.map_eq_some_iff.mp hs
      cases hs
      exact ⟨hw.1.act hr, fun ch => (hw.2 ch).act hw.1 hr⟩

end Runs

/-! ## Two clients -/

def freshBroker : BrokerRun :=
  (⟨⟨none, ∅⟩, ∅, fun _ => ⟨[], false⟩, 0, fun _ => .idle, none⟩, [])

/-- The tick reaches both clients; the first receives it, the second leaves and
misses the next one. -/
def twoClients : List BrokerAct :=
  [.subscribe 0, .subscribe 1] ++ List.replicate 3 (.next (.handler 0)) ++
  List.replicate 3 (.next (.handler 1)) ++
  [.publish ⟨"ticks", "1"⟩, .next .tailer, .send 1, .receive 1, .send 0, .next .tailer,
    .unsubscribe 0 0] ++ List.replicate 4 (.next (.handler 0)) ++
  [.publish ⟨"ticks", "2"⟩, .next .tailer, .send 1, .next .tailer]

theorem broker_delivers_twoClients : ∃ w : BrokerRun,
    receivedBy 1 w.2 = [⟨"ticks", "1"⟩] ∧ (w.1.channels 1).buffer = [⟨"ticks", "2"⟩] ∧
      (w.1.channels 0).buffer = [⟨"ticks", "1"⟩] ∧ w.1.panicked = none ∧ ∀ ch, Delivery w ch := by
  obtain ⟨w, hw, hp⟩ := Reach.exists_of_run brokerStep anyStep newBroker twoClients
    (fun w => receivedBy 1 w.2 = [⟨"ticks", "1"⟩] ∧ (w.1.channels 1).buffer = [⟨"ticks", "2"⟩] ∧
      (w.1.channels 0).buffer = [⟨"ticks", "1"⟩])
    (s := freshBroker) ⟨rfl, rfl, fun _ => rfl, rfl, fun _ => rfl, rfl, rfl⟩ (by decide +kernel)
  have hp := of_decide_eq_true hp
  exact ⟨w, hp.1, hp.2.1, hp.2.2, broker_delivers hw⟩

end TradePulse.Gateway
