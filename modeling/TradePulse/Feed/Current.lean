import TradePulse.Feed.InOrder

/-! # A page that is up to date

Once nothing is on its way any more, a page that has been connected at every
publish, and whose buffer was never full, has handled everything that came to
the streams since the tailer began. -/
namespace TradePulse.Feed
open TradePulse.Core TradePulse.Core.EventStream TradePulse.Core.Runs TradePulse.Core.StreamLog
open TradePulse.Gateway TradePulse.Dashboard

variable {N : Type} {names : Names} {w : LiveFeed N}

/-! ## Statement -/

/-- What the tailer's own guarantee needs: no Redis error, and no event passed
over by `$`. -/
def tailOk (names : Names) (w : LiveFeed N) : Act → Prop
  | .tail a => noRedisError w.tail a ∧ nothingPassedOver names.tailer w.tail a
  | _ => True

def steady (names : Names) (w : LiveFeed N) (a : Act) : Prop := oneLine w a ∧ tailOk names w a

instance (w : LiveFeed N) (a : Act) : Decidable (tailOk names w a) := by
  unfold tailOk
  split <;> infer_instance

instance (w : LiveFeed N) (a : Act) : Decidable (steady names w a) :=
  inferInstanceAs (Decidable (_ ∧ _))

/-- Nothing is on its way to page `i` over its connection `n`: the tailer waits
for new entries, and whatever the broker had for the page has been handled. -/
structure AtRest (w : LiveFeed N) (i n : Nat) (c : Connection) (ch : Chan)
    (cursors : String → Nat) : Prop where
  reading : w.reading i = some (n, c)
  subscribed : c.ch = some ch
  greeted : c.greeted = true
  waiting : w.tail.phase = .blocked cursors
  returned : w.broker.1.pc .tailer = .idle
  received : (w.broker.1.channels ch).buffer = []
  arrived : c.arrived = c.sent.length
  handled : c.handled = c.events.length

/-- The client was subscribed at every publish, and always had room. -/
structure Throughout (w : LiveFeed N) (ch : Chan) : Prop where
  subscribed : span ch w.broker.2 = publishes w.broker.2
  room : ∀ x ∈ heldAt ch w.broker.2, x.2 < capacity

/-! ## The connection -/

/-- Whatever was published since it subscribed has been handled. -/
theorem Wired.events_at_rest (h : Wired names w) {i n : Nat} {c : Connection} {ch : Chan}
    {cursors : String → Nat} (hr : AtRest w i n c ch cursors)
    (hroom : ∀ x ∈ heldAt ch w.broker.2, x.2 < capacity) :
    c.events = (span ch w.broker.2).map dispatched := by
  obtain ⟨-, get⟩ := reading_some hr.reading
  have htraced := h.recorded.traced ch
  have hreceived : receivedBy ch w.broker.2 = (heldAt ch w.broker.2).map (·.1) := by
    have hkept := htraced.kept
    rw [hr.received, List.append_nil] at hkept
    rw [hkept, List.filter_eq_self.mpr fun x hx => decide_eq_true (hroom x hx)]
  have hspan : (heldAt ch w.broker.2).map (·.1) = span ch w.broker.2 := by
    have hspan := htraced.span
    rwa [underway_eq_nil (by rw [hr.returned]; rfl), List.append_nil] at hspan
  unfold Connection.events
  rw [hr.arrived, List.take_length, Connection.sent_greeted hr.greeted,
    eventSource_body (h.sound_written get), (h.served n c get).messages hr.subscribed, hreceived, hspan]

theorem Joined.handled_at_rest {i n : Nat} {c : Connection} {ch : Chan}
    {cursors : String → Nat} (h : Wired names w) (hj : Joined w i)
    (hr : AtRest w i n c ch cursors) (ht : Throughout w ch) :
    (w.tabs i).handled.map (·.1) = (w.tail.published.map (·.2)).map dispatched := by
  obtain ⟨hconn, get⟩ := reading_some hr.reading
  unfold Joined at hj
  rw [hconn] at hj
  obtain ⟨c', m, before, ho⟩ := hj
  cases get.symm.trans ho.get
  -- all was published since the connection was opened
  have hnothing : (publishes w.broker.2).take m = [] := by
    have hle := (ho.since ch hr.subscribed).length_le
    rw [ht.subscribed, List.length_drop] at hle
    have hm := ho.le
    rw [List.take_eq_nil_iff, ← List.length_eq_zero_iff]
    omega
  have hbefore := ho.earlier
  rw [hnothing, List.map_nil, List.sublist_nil] at hbefore
  have hpublished := h.recorded.published
  have hnone : awaiting w.broker.1 = [] := by
    rw [awaiting, hr.returned]
    rfl
  rw [hnone, List.append_nil] at hpublished
  rw [ho.handled, hbefore, List.nil_append, hr.handled, List.take_length,
    h.events_at_rest hr ht.room, ht.subscribed, hpublished]

/-! ## The tailer -/

theorem tailing_of_reach [JsNumber N] {parse : Parse N}
    (h : Reach (step names parse) (steady names) start w) : Tailing names.tailer w.tail := by
  refine h.invariant (I := fun w => Tailing names.tailer w.tail) (fun w hw => ?_)
    fun w a w' hI hok hs => ?_
  · obtain ⟨⟨⟨hphase, hstarted, hpub, hcur⟩, -⟩, -⟩ := hw
    exact .waiting hstarted ⟨.inl hphase, hpub, hcur⟩
  · cases step_inv hs with
    | tail htail hbroker => exact hI.step hok.2.1 hok.2.2 htail
    | _ => exact hI

/-- When the tailer waits, all entries since its first call are published. -/
theorem published_at_rest {w : TailState} (h : Tailing names.tailer w) {first : String → Nat}
    (hfirst : w.started = some first) {cursors : String → Nat}
    (hwaiting : w.phase = .blocked cursors) {s : String} (hs : s ∈ names.tailer.streamNames) :
    w.publishedFor s = messages names.tailer s ((w.logs s).drop (first s)) := by
  cases h with
  | waiting started =>
    rw [hfirst] at started
    cases started
  | tracking started h =>
    rw [hfirst] at started
    cases started
    have htracks := h s hs
    rw [Tracks, hwaiting] at htracks
    obtain ⟨hcursor, hdone⟩ := htracks
    rw [hdone.published, hcursor, between, List.take_length]

theorem Names.Carries.mem {s type : String} (h : names.Carries s type) :
    s ∈ names.tailer.streamNames := by
  cases h <;> simp [Names.tailer, StreamTailer.streamNames]

/-- **A page is up to date.** In every run without a Redis error and with no
event passed over by `$`: when nothing is on its way any more, a page that was
subscribed at every publish and always had room shows the newest tick of each
symbol of `market.ticks`, the newest 50 ticks, and the newest risk events, of
all entries since the tailer's first call. -/
theorem feed_up_to_date [JsNumber N] {parse : Parse N}
    (h : Reach (step names parse) (steady names) start w) {i n : Nat} {c : Connection} {ch : Chan}
    {cursors first : String → Nat} (hr : AtRest w i n c ch cursors) (ht : Throughout w ch)
    (hfirst : w.tail.started = some first) :
    (w.tabs i).page.Shows parse (w.tabs i).handled ∧
      ∀ s type, names.Carries s type → (framesOf type (w.tabs i).handled).map (·.1) =
        (((w.tail.logs s).drop (first s)).filter (·.payload ≠ "")).map (·.payload.toList) := by
  have hone : Reach (step names parse) oneLine start w := h.mono (fun _ h => h) fun _ _ h => h.1
  have hw := wired_of_reach hone
  refine ⟨shows_of_reach hone i, fun s type hs => ?_⟩
  rw [framesOf_data, (joined_of_reach hone i).handled_at_rest hw hr ht, dispatched_data,
    hw.messages_of_type hs, published_at_rest (tailing_of_reach h) hfirst hr.waiting hs.mem,
    messages, List.map_map]
  rfl

/-! ## A page that has read everything -/

def readingAll : List Act :=
  connecting 0 ++ [.tail .iterate] ++ ticking "1" [0] ++ [.forward 0, .arrive 0 30] ++
    ticking "2" [0] ++ [.forward 0, .arrive 0 97, .handle 0 5, .handle 0 6]

/-- What of `AtRest` and `Throughout` is checked of a run's last state. -/
def restsAtLast (w : LiveFeed Nat) : Bool :=
  ((w.reading 0).any fun r => decide (r.1 = 0 ∧ r.2.ch = some 0 ∧ r.2.greeted = true ∧
    r.2.arrived = r.2.sent.length ∧ r.2.handled = r.2.events.length)) &&
  (match w.tail.phase with
    | .blocked _ => true
    | _ => false) &&
  decide (w.broker.1.pc .tailer = .idle ∧ (w.broker.1.channels 0).buffer = [] ∧
    span 0 w.broker.2 = publishes w.broker.2 ∧ ∀ x ∈ heldAt 0 w.broker.2, x.2 < capacity) &&
  (w.tail.started.any fun first => first "market.ticks" == 0) &&
  decide ((w.tabs 0).page.tickLog.map (·.seen) = [6, 5])

theorem feed_up_to_date_readingAll : ∃ w : LiveFeed Nat,
    (framesOf "ticks" (w.tabs 0).handled).map (·.1) =
      ((w.tail.logs "market.ticks").filter (·.payload ≠ "")).map (·.payload.toList) ∧
    (w.tabs 0).page.tickLog.map (·.seen) = [6, 5] := by
  obtain ⟨w, hreach, hw⟩ := Reach.exists_of_run (step gatewayNames parseTicks)
    (steady gatewayNames) start readingAll restsAtLast (s := beforeStart)
    ⟨⟨Gateway.atConnect_connected, fun _ _ he => absurd he List.not_mem_nil⟩,
      ⟨rfl, rfl, fun _ => rfl, rfl, fun _ => rfl, rfl, rfl⟩, rfl, fun _ => rfl⟩ (by decide +kernel)
  simp only [restsAtLast, Bool.and_eq_true, Option.any_eq_true, decide_eq_true_eq, beq_iff_eq] at hw
  obtain ⟨⟨⟨⟨⟨⟨n, c⟩, hreading, rfl, hch, hgreeted, harrived, hhandled⟩, hphase⟩, hreturned,
    hreceived, hspan, hroom⟩, first, hfirst, hzero⟩, hlog⟩ := hw
  split at hphase
  · rename_i cursors hwaiting
    have h := (feed_up_to_date hreach ⟨hreading, hch, hgreeted, hwaiting, hreturned, hreceived,
      harrived, hhandled⟩ ⟨hspan, hroom⟩ hfirst).2 _ _ .ticks
    refine ⟨w, ?_, hlog⟩
    rw [h, show first gatewayNames.ticks = 0 from hzero]
    rfl
  · cases hphase

end TradePulse.Feed
