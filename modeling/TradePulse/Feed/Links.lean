import TradePulse.Feed.Effects
import TradePulse.Feed.System

/-! # How the parts of the feed are linked

What the tailer has published is what the broker has announced, and what a
handler has written is what its channel has received. -/
namespace TradePulse.Feed
open TradePulse.Core TradePulse.Core.EventStream TradePulse.Core.Runs TradePulse.Gateway
open TradePulse.Dashboard (JsNumber Parse Page)

/-! ## Steps -/

section Step

variable {N : Type}

theorem serving_some {w : LiveFeed N} {n : Nat} {c : Connection} {ch : Chan}
    (h : w.serving n = some (c, ch)) :
    w.connections[n]? = some c ∧ c.ch = some ch := by
  simp only [LiveFeed.serving, Option.bind_eq_bind, Option.bind_eq_some_iff] at h
  obtain ⟨c', hget, ch', hch, h⟩ := h
  split at h
  · cases h
    exact ⟨hget, hch⟩
  · cases h

theorem reading_some {w : LiveFeed N} {i n : Nat} {c : Connection}
    (h : w.reading i = some (n, c)) :
    (w.tabs i).connection = some n ∧ w.connections[n]? = some c := by
  simp only [LiveFeed.reading, Option.bind_eq_bind, Option.bind_eq_some_iff] at h
  obtain ⟨n', hconn, c', hget, h⟩ := h
  cases h
  exact ⟨hconn, hget⟩

variable [JsNumber N]

/-- What a step of the feed does, less its guards that nothing rests on. -/
inductive Step (names : Names) (parse : Parse N) (w : LiveFeed N) : Act → LiveFeed N → Prop
  | tail {a : TailAct} {tail : TailState} {broker : BrokerRun}
      (htail : Gateway.step names.tailer a w.tail = some tail)
      (hbroker : announce (due names.tailer w.tail a) w.broker = some broker) :
      Step names parse w (.tail a) { w with tail, broker }
  | call {a : Act} {b : BrokerAct} {broker : BrokerRun}
      (own : (∃ t, b = .next t) ∨ ∃ ch, b = .send ch) (hbroker : brokerStep b w.broker = some broker) :
      Step names parse w a { w with broker }
  | connect {i : Nat} (closed : (w.tabs i).connection = none) :
      Step names parse w (.connect i)
        ({ w with connections := w.connections ++ [newConnection i] }.setTab i
          { w.tabs i with connection := some w.connections.length })
  | subscribe {n : Nat} {c : Connection} {broker : BrokerRun} (get : w.connections[n]? = some c)
      (fresh : c.ch = none) (hbroker : brokerStep (.subscribe n) w.broker = some broker) :
      Step names parse w (.subscribe n)
        ({ w with broker }.setConnection n { c with ch := some w.broker.1.made })
  | greet {n : Nat} {c : Connection} {ch : Chan} (get : w.connections[n]? = some c)
      (hch : c.ch = some ch) (silent : c.greeted = false) :
      Step names parse w (.greet n) (w.setConnection n { c with greeted := true })
  | forward {n : Nat} {c : Connection} {ch : Chan} {msg : Message} {rest : List Message}
      {broker : BrokerRun} (get : w.connections[n]? = some c) (hch : c.ch = some ch)
      (greeted : c.greeted = true) (buffer : (w.broker.1.channels ch).buffer = msg :: rest)
      (hbroker : brokerStep (.receive ch) w.broker = some broker) :
      Step names parse w (.forward n)
        ({ w with broker }.setConnection n { c with written := c.written ++ [some msg] })
  | keepAlive {n : Nat} {c : Connection} {ch : Chan} (get : w.connections[n]? = some c)
      (hch : c.ch = some ch) (greeted : c.greeted = true) :
      Step names parse w (.keepAlive n)
        (w.setConnection n { c with written := c.written ++ [none] })
  | leave {n : Nat} {c : Connection} {ch : Chan} {broker : BrokerRun}
      (get : w.connections[n]? = some c) (hch : c.ch = some ch)
      (hbroker : brokerStep (.unsubscribe n ch) w.broker = some broker) :
      Step names parse w (.leave n) ({ w with broker }.setConnection n { c with left := true })
  | opened {i n : Nat} {c : Connection} (reading : w.reading i = some (n, c)) :
      Step names parse w (.opened i)
        (w.setTab i { w.tabs i with page := { (w.tabs i).page with status := .open } })
  | arrive {i k n : Nat} {c : Connection} (reading : w.reading i = some (n, c))
      (fits : c.arrived + k ≤ c.sent.length) :
      Step names parse w (.arrive i k) (w.setConnection n { c with arrived := c.arrived + k })
  | handle {i now n : Nat} {c : Connection} {e : Dispatched} (reading : w.reading i = some (n, c))
      (next : c.events[c.handled]? = some e) :
      Step names parse w (.handle i now)
        ((w.setConnection n { c with handled := c.handled + 1 }).setTab i
          { w.tabs i with
            page := (w.tabs i).page.handle parse e now
            handled := (w.tabs i).handled ++ [(e, now)] })
  | fail {i n : Nat} {c : Connection} (reading : w.reading i = some (n, c)) :
      Step names parse w (.fail i) (w.setTab i { w.tabs i with
        connection := none
        page := { (w.tabs i).page with status := .reconnecting } })

variable {names : Names} {parse : Parse N} {w w' : LiveFeed N}

theorem step_inv {a : Act} (h : step names parse a w = some w') : Step names parse w a w' := by
  cases a with
  | tail a =>
    simp only [step] at h
    split at h
    · simp only [Option.bind_eq_bind, Option.bind_eq_some_iff] at h
      obtain ⟨tail, htail, broker, hbroker, h⟩ := h
      cases h
      exact .tail htail hbroker
    · cases h
  | publish =>
    simp only [step, Option.bind_eq_bind, Option.bind_eq_some_iff] at h
    obtain ⟨broker, hbroker, h⟩ := h
    cases h
    exact .call (.inl ⟨_, rfl⟩) hbroker
  | send ch =>
    simp only [step, Option.bind_eq_bind, Option.bind_eq_some_iff] at h
    obtain ⟨broker, hbroker, h⟩ := h
    cases h
    exact .call (.inr ⟨_, rfl⟩) hbroker
  | handler n =>
    simp only [step, Option.bind_eq_bind, Option.bind_eq_some_iff] at h
    obtain ⟨broker, hbroker, h⟩ := h
    cases h
    exact .call (.inl ⟨_, rfl⟩) hbroker
  | connect i =>
    simp only [step] at h
    split at h
    · cases h
    · rename_i hnone
      cases h
      exact .connect hnone
  | subscribe n =>
    simp only [step, Option.bind_eq_bind, Option.bind_eq_some_iff] at h
    obtain ⟨c, hget, h⟩ := h
    split at h
    · rename_i hfresh
      obtain ⟨broker, hbroker, h⟩ := Option.bind_eq_some_iff.mp h
      cases h
      exact .subscribe hget hfresh hbroker
    · cases h
  | greet n =>
    simp only [step, Option.bind_eq_bind, Option.bind_eq_some_iff] at h
    obtain ⟨⟨c, ch⟩, hserving, h⟩ := h
    obtain ⟨hget, hch⟩ := serving_some hserving
    split at h
    · cases h
    · rename_i hsilent
      cases h
      exact .greet hget hch (Bool.eq_false_iff.mpr hsilent)
  | forward n =>
    simp only [step, Option.bind_eq_bind, Option.bind_eq_some_iff] at h
    obtain ⟨⟨c, ch⟩, hserving, msg, hmsg, h⟩ := h
    obtain ⟨hget, hch⟩ := serving_some hserving
    obtain ⟨rest, hbuffer⟩ := List.head?_eq_some_iff.mp hmsg
    split at h
    · rename_i hgreeted
      obtain ⟨broker, hbroker, h⟩ := Option.bind_eq_some_iff.mp h
      cases h
      exact .forward hget hch hgreeted hbuffer hbroker
    · cases h
  | keepAlive n =>
    simp only [step, Option.bind_eq_bind, Option.bind_eq_some_iff] at h
    obtain ⟨⟨c, ch⟩, hserving, h⟩ := h
    obtain ⟨hget, hch⟩ := serving_some hserving
    split at h
    · rename_i hgreeted
      cases h
      exact .keepAlive hget hch hgreeted
    · cases h
  | leave n =>
    simp only [step, Option.bind_eq_bind, Option.bind_eq_some_iff] at h
    obtain ⟨⟨c, ch⟩, hserving, h⟩ := h
    obtain ⟨hget, hch⟩ := serving_some hserving
    split at h
    · obtain ⟨broker, hbroker, h⟩ := Option.bind_eq_some_iff.mp h
      cases h
      exact .leave hget hch hbroker
    · cases h
  | opened i =>
    simp only [step, Option.bind_eq_bind, Option.bind_eq_some_iff] at h
    obtain ⟨⟨n, c⟩, hreading, h⟩ := h
    split at h
    · cases h
      exact .opened hreading
    · cases h
  | arrive i k =>
    simp only [step, Option.bind_eq_bind, Option.bind_eq_some_iff] at h
    obtain ⟨⟨n, c⟩, hreading, h⟩ := h
    split at h
    · rename_i hfits
      cases h
      exact .arrive hreading hfits
    · cases h
  | handle i now =>
    simp only [step, Option.bind_eq_bind, Option.bind_eq_some_iff] at h
    obtain ⟨⟨n, c⟩, hreading, e, hnext, h⟩ := h
    cases h
    exact .handle hreading hnext
  | fail i =>
    simp only [step, Option.bind_eq_bind, Option.bind_eq_some_iff] at h
    obtain ⟨⟨n, c⟩, hreading, h⟩ := h
    cases h
    exact .fail hreading

end Step

/-! ## The tailer and the broker -/

theorem brokerStep_some {a : BrokerAct} {b b' : BrokerRun} (h : brokerStep a b = some b') :
    ∃ es, b.1.act a = some (b'.1, es) ∧ b'.2 = b.2 ++ es := by
  unfold brokerStep at h
  split at h
  · cases h
  · obtain ⟨⟨b₁, es⟩, hact, h⟩ := Option.map_eq_some_iff.mp h
    cases h
    exact ⟨es, hact, rfl⟩

/-- What a step of the tailer hands to the broker. -/
theorem published_of_step {t : StreamTailer} {a : TailAct} {w w' : TailState}
    (h : Gateway.step t a w = some w') :
    w'.published.map (·.2) = w.published.map (·.2) ++ (due t w a).toList := by
  cases a with
  | take =>
    cases hp : w.phase with
    | replied rest =>
      cases rest with
      | nil =>
        simp only [Gateway.step, hp, Option.some.injEq] at h
        subst h
        simp [due, hp]
      | cons m rest =>
        obtain ⟨s, id, e⟩ := m
        simp only [Gateway.step, hp, Option.some.injEq] at h
        subst h
        by_cases he : e.payload = "" <;> simp [due, hp, deliver, he]
    | _ => simp only [Gateway.step, hp, reduceCtorEq] at h
  | iterate =>
    cases hp : w.phase with
    | idle =>
      simp only [Gateway.step, hp] at h
      split at h
      · cases h
        simp [due]
      · cases h
        simp [due]
    | _ => simp only [Gateway.step, hp, reduceCtorEq] at h
  | cancel =>
    cases h
    simp [due]
  | _ =>
    cases hp : w.phase <;>
      simp only [Gateway.step, hp, reduceCtorEq, Option.some.injEq] at h <;> subst h <;> simp [due]

/-- The tailer and the broker agree on what has been published. -/
structure Recorded (tail : TailState) (b : BrokerRun) : Prop where
  orderly : Orderly b.1
  traced : ∀ ch, Traced b ch
  published : publishes b.2 ++ awaiting b.1 = tail.published.map (·.2)
  known : ∀ e ∈ b.2, ∀ ch, channelOf e = some ch → ch < b.1.made

section Recorded

variable {tail tail' : TailState} {b b' : BrokerRun}

theorem known_append {es : List BrokerEvent} {made made' : Nat} (hmade : made ≤ made')
    (h : ∀ e ∈ b.2, ∀ ch, channelOf e = some ch → ch < made)
    (hes : ∀ e ∈ es, ∀ ch, channelOf e = some ch → ch < made') :
    ∀ e ∈ b.2 ++ es, ∀ ch, channelOf e = some ch → ch < made' := by
  intro e he ch hch
  rcases List.mem_append.mp he with he | he
  · exact Nat.lt_of_lt_of_le (h e he ch hch) hmade
  · exact hes e he ch hch

/-- A statement of a call that is under way, or a receive. -/
theorem Recorded.call (h : Recorded tail b) {a : BrokerAct} (ha : ∀ msg, a ≠ .publish msg)
    (hreceive : ∀ ch, a = .receive ch → ch < b.1.made) (hs : brokerStep a b = some b') :
    Recorded tail b' ∧ b.1.made ≤ b'.1.made ∧ ∃ es, b.1.act a = some (b'.1, es) ∧
      b'.2 = b.2 ++ es ∧ Effect b.1 a b'.1 es := by
  obtain ⟨es, hact, hes⟩ := brokerStep_some hs
  have heffect := effect_act h.orderly hreceive hact
  refine ⟨⟨h.orderly.act hact, fun ch => ?_, ?_, ?_⟩, heffect.made, es, hact, hes, heffect⟩
  · have htraced : Traced (b'.1, b.2 ++ es) ch := (h.traced ch).act h.orderly hact
    rw [← hes] at htraced
    exact htraced
  · rw [hes, publishes_append, List.append_assoc, heffect.published ha]
    exact h.published
  · rw [hes]
    exact known_append heffect.made h.known heffect.known

/-- A step of the tailer. -/
theorem Recorded.tailed {t : StreamTailer} (h : Recorded tail b) {a : TailAct}
    (htail : Gateway.step t a tail = some tail')
    (hbroker : announce (due t tail a) b = some b') :
    Recorded tail' b' ∧ b'.2 = b.2 ∧ b'.1.made = b.1.made := by
  have hpub := published_of_step htail
  cases hdue : due t tail a with
  | none =>
    rw [hdue] at hbroker hpub
    cases hbroker
    refine ⟨⟨h.orderly, h.traced, ?_, h.known⟩, rfl, rfl⟩
    rw [hpub, Option.toList_none, List.append_nil]
    exact h.published
  | some msg =>
    rw [hdue] at hbroker hpub
    obtain ⟨es, hact, hes⟩ := brokerStep_some hbroker
    obtain ⟨rfl, hbefore, hafter, hmade⟩ := act_publish hact
    rw [List.append_nil] at hes
    refine ⟨⟨h.orderly.act hact, fun ch => ?_, ?_, ?_⟩, hes, hmade⟩
    · have htraced : Traced (b'.1, b.2 ++ []) ch := (h.traced ch).act h.orderly hact
      rw [List.append_nil, ← hes] at htraced
      exact htraced
    · have hpublished := h.published
      rw [hbefore, List.append_nil] at hpublished
      rw [hes, hafter, hpub, hpublished, Option.toList_some]
    · rw [hes, hmade]
      exact h.known

end Recorded

/-! ## The connections -/

/-- What a handler has written is what its channel has received. -/
structure Served (b : BrokerRun) (c : Connection) : Prop where
  written : match c.ch with
    | none => c.written = [] ∧ c.greeted = false
    | some ch => ch < b.1.made ∧ messagesIn c.written = receivedBy ch b.2
  arrived : c.arrived ≤ c.sent.length
  handled : c.handled ≤ c.events.length

/-- The links between the parts of the feed. -/
structure Wired {N : Type} (names : Names) (w : LiveFeed N) : Prop where
  rising : Rising names.tailer w.tail
  lines : ∀ s, ∀ e ∈ w.tail.logs s, OneLine e.payload.toList
  recorded : Recorded w.tail w.broker
  served : ∀ (n : Nat) (c : Connection), w.connections[n]? = some c → Served w.broker c
  apart : ∀ (n m : Nat) (c c' : Connection) (ch : Chan), w.connections[n]? = some c →
    w.connections[m]? = some c' → c.ch = some ch → c'.ch = some ch → n = m

section Served

variable {b b' : BrokerRun} {c : Connection} {ch : Chan}

/-- Nothing has been received for the connection. -/
theorem Served.record (h : Served b c) {es : List BrokerEvent} (hmade : b.1.made ≤ b'.1.made)
    (hes : b'.2 = b.2 ++ es) (hreceived : ∀ ch, c.ch = some ch → receivedBy ch es = []) :
    Served b' c := by
  refine ⟨?_, h.arrived, h.handled⟩
  have hwritten := h.written
  cases hch : c.ch with
  | none =>
    rw [hch] at hwritten
    exact hwritten
  | some ch =>
    rw [hch] at hwritten
    refine ⟨Nat.lt_of_lt_of_le hwritten.1 hmade, ?_⟩
    rw [hes, receivedBy_append, hreceived ch hch, List.append_nil]
    exact hwritten.2

theorem served_new (b : BrokerRun) (i : Nat) : Served b (newConnection i) :=
  ⟨⟨rfl, rfl⟩, Nat.zero_le _, Nat.zero_le _⟩

theorem Served.made (h : Served b c) (hch : c.ch = some ch) : ch < b.1.made := by
  have hwritten := h.written
  rw [hch] at hwritten
  exact hwritten.1

/-- Without a channel nothing has been written. -/
theorem Served.silent (h : Served b c) (hch : c.ch = none) :
    c.written = [] ∧ c.greeted = false := by
  have hwritten := h.written
  rw [hch] at hwritten
  exact hwritten

theorem Served.messages (h : Served b c) (hch : c.ch = some ch) :
    messagesIn c.written = receivedBy ch b.2 := by
  have hwritten := h.written
  rw [hch] at hwritten
  exact hwritten.2

/-- What is said of a connection that has changed, when its channel has not. -/
theorem Served.change (h : Served b c) (hch : c.ch = some ch) {c' : Connection}
    (hsame : c'.ch = c.ch) (hmessages : messagesIn c'.written = messagesIn c.written)
    (harrived : c'.arrived ≤ c'.sent.length) (hhandled : c'.handled ≤ c'.events.length) :
    Served b c' := by
  refine ⟨?_, harrived, hhandled⟩
  rw [hsame, hch, hmessages]
  exact ⟨h.made hch, h.messages hch⟩

theorem Connection.sent_greeted (h : c.greeted = true) : c.sent = body c.written := by
  rw [Connection.sent, if_pos h]

/-- More is written behind what has arrived. -/
theorem Served.write (h : Served b c) (hgreeted : c.greeted = true) (vs : List Written) :
    c.arrived ≤ (Connection.sent { c with written := c.written ++ vs }).length ∧
      Connection.events { c with written := c.written ++ vs } = c.events := by
  have harrived := h.arrived
  rw [Connection.sent_greeted hgreeted] at harrived
  have hsent : Connection.sent { c with written := c.written ++ vs } = body (c.written ++ vs) :=
    Connection.sent_greeted hgreeted
  refine ⟨?_, ?_⟩
  · rw [hsent]
    exact Nat.le_trans harrived (body_mono _ _).length_le
  · unfold Connection.events
    rw [hsent, take_body_append _ _ harrived, Connection.sent_greeted hgreeted]

/-- Before the response has begun, nothing has arrived. -/
theorem Served.greet (h : Served b c) (hsilent : c.greeted = false) :
    c.arrived = 0 ∧ Connection.events { c with greeted := true } = c.events := by
  have harrived : c.arrived = 0 := by
    have hle := h.arrived
    rw [Connection.sent, hsilent] at hle
    exact Nat.le_zero.mp hle
  refine ⟨harrived, ?_⟩
  unfold Connection.events
  rw [harrived, List.take_zero, List.take_zero]

theorem events_mono {k : Nat} :
    c.events <+: Connection.events { c with arrived := c.arrived + k } := by
  unfold Connection.events Connection.sent
  split
  · exact eventSource_take_mono _ (Nat.le_add_right ..)
  · simp

end Served

section Wired

variable {N : Type} {names : Names} {w : LiveFeed N}

/-- One connection changes. -/
theorem Wired.replace (h : Wired names w) {n : Nat} {c' : Connection} {broker : BrokerRun}
    (hrec : Recorded w.tail broker)
    (hothers : ∀ (m : Nat) (x : Connection), m ≠ n → w.connections[m]? = some x → Served broker x)
    (hc : Served broker c')
    (hch : ∀ (m : Nat) (x : Connection), m ≠ n → w.connections[m]? = some x →
      ∀ ch, x.ch = some ch → c'.ch ≠ some ch) :
    Wired names ({ w with broker }.setConnection n c') := by
  have hmem : ∀ (m : Nat) (x : Connection), (w.connections.set n c')[m]? = some x →
      (m = n ∧ x = c') ∨ (m ≠ n ∧ w.connections[m]? = some x) := by
    intro m x hx
    by_cases hm : m = n
    · subst hm
      rw [List.getElem?_set_self'] at hx
      obtain ⟨y, -, hy⟩ := Option.map_eq_some_iff.mp hx
      exact .inl ⟨rfl, hy.symm⟩
    · rw [List.getElem?_set_ne (Ne.symm hm)] at hx
      exact .inr ⟨hm, hx⟩
  refine ⟨h.rising, h.lines, hrec, fun m x hx => ?_, fun m k x y ch hx hy hxc hyc => ?_⟩
  · obtain ⟨-, rfl⟩ | ⟨hm, hx⟩ := hmem m x hx
    · exact hc
    · exact hothers m x hm hx
  · obtain ⟨rfl, rfl⟩ | ⟨hm, hx'⟩ := hmem m x hx
    · obtain ⟨rfl, -⟩ | ⟨hk, hy'⟩ := hmem k y hy
      · rfl
      · exact absurd hxc (hch k y hk hy' ch hyc)
    · obtain ⟨rfl, rfl⟩ | ⟨hk, hy'⟩ := hmem k y hy
      · exact absurd hyc (hch m x hm hx' ch hxc)
      · exact h.apart m k x y ch hx' hy' hxc hyc

/-- One connection changes, and its channel does not. -/
theorem Wired.update (h : Wired names w) {n : Nat} {c c' : Connection} {broker : BrokerRun}
    (get : w.connections[n]? = some c) (hsame : c'.ch = c.ch) (hrec : Recorded w.tail broker)
    (hothers : ∀ (m : Nat) (x : Connection), m ≠ n → w.connections[m]? = some x → Served broker x)
    (hc : Served broker c') : Wired names ({ w with broker }.setConnection n c') := by
  refine h.replace hrec hothers hc fun m x hm hx ch hxc hcc => ?_
  rw [hsame] at hcc
  exact hm (h.apart m n x c ch hx get hxc hcc)

/-- The same, where the broker has no part in it. -/
theorem Wired.change (h : Wired names w) {n : Nat} {c c' : Connection}
    (get : w.connections[n]? = some c) (hsame : c'.ch = c.ch) (hc : Served w.broker c') :
    Wired names (w.setConnection n c') := by
  have hupdate : Wired names ({ w with broker := w.broker }.setConnection n c') :=
    h.update get hsame h.recorded (fun m x _ hx => h.served m x hx) hc
  exact hupdate

/-- The pages have no part in the links. -/
theorem Wired.setTab (h : Wired names w) (i : Nat) (t : Tab N) : Wired names (w.setTab i t) :=
  ⟨h.rising, h.lines, h.recorded, h.served, h.apart⟩

/-- The broker takes a step that is no receive. -/
theorem Wired.call (h : Wired names w) {a : BrokerAct} {broker : BrokerRun}
    (ha : ∀ msg, a ≠ .publish msg) (hreceive : ∀ ch, a ≠ .receive ch)
    (hs : brokerStep a w.broker = some broker) :
    Recorded w.tail broker ∧ ∀ (n : Nat) (c : Connection), w.connections[n]? = some c →
      Served broker c := by
  obtain ⟨hrec, hmade, es, -, hes, heffect⟩ :=
    h.recorded.call ha (fun ch hch => absurd hch (hreceive ch)) hs
  exact ⟨hrec, fun n c hc => (h.served n c hc).record hmade hes fun ch _ =>
    heffect.received hreceive ch⟩

/-- Only an append changes a stream. -/
theorem logs_of_step {t : StreamTailer} {a : TailAct} {v v' : TailState}
    (h : Gateway.step t a v = some v') (s : String) :
    v'.logs s = v.logs s ∨ ∃ e, a = .append s e ∧ v'.logs s = v.logs s ++ [e] := by
  cases a with
  | append s' e =>
    have hlogs : v'.logs = Function.update v.logs s' (v.logs s' ++ [e]) := by
      cases hp : v.phase <;> simp only [Gateway.step, hp, Option.some.injEq] at h <;> subst h <;> rfl
    rw [hlogs]
    by_cases hs : s = s'
    · subst hs
      exact .inr ⟨e, rfl, Function.update_self ..⟩
    · exact .inl (Function.update_of_ne hs ..)
  | iterate =>
    cases hp : v.phase with
    | idle =>
      simp only [Gateway.step, hp] at h
      split at h <;> cases h <;> exact .inl rfl
    | _ => simp only [Gateway.step, hp, reduceCtorEq] at h
  | take =>
    cases hp : v.phase with
    | replied rest =>
      cases rest <;> simp only [Gateway.step, hp, Option.some.injEq] at h <;> subst h <;>
        exact .inl rfl
    | _ => simp only [Gateway.step, hp, reduceCtorEq] at h
  | cancel =>
    cases h
    exact .inl rfl
  | _ =>
    cases hp : v.phase <;>
      simp only [Gateway.step, hp, reduceCtorEq, Option.some.injEq] at h <;> subst h <;>
        exact .inl rfl

variable [JsNumber N] {parse : Parse N} {w' : LiveFeed N}

/-- A step keeps the links. -/
theorem Wired.step {a : Act} (h : Wired names w) (hok : oneLine w a)
    (hs : Step names parse w a w') : Wired names w' := by
  cases hs with
  | @tail a tail broker htail hbroker =>
    obtain ⟨hrec, hes, hmade⟩ := h.recorded.tailed htail hbroker
    refine ⟨h.rising.step htail, fun s e he => ?_, hrec, fun n c hc => ?_, h.apart⟩
    · obtain hsame | ⟨e', rfl, hlogs⟩ := logs_of_step htail s
      · exact h.lines s e (hsame ▸ he)
      · change e ∈ tail.logs s at he
        rw [hlogs] at he
        rcases List.mem_append.mp he with he | he
        · exact h.lines s e he
        · rw [List.mem_singleton] at he
          subst he
          exact hok
    · exact (h.served n c hc).record (Nat.le_of_eq hmade.symm) (by rw [hes, List.append_nil])
        fun _ _ => rfl
  | @call _ b broker own hbroker =>
    have hown : Recorded w.tail broker ∧ ∀ (n : Nat) (c : Connection), w.connections[n]? = some c →
        Served broker c := by
      obtain ⟨t, rfl⟩ | ⟨ch, rfl⟩ := own
      · exact h.call (by simp) (by simp) hbroker
      · exact h.call (by simp) (by simp) hbroker
    exact ⟨h.rising, h.lines, hown.1, hown.2, h.apart⟩
  | @connect i closed =>
    refine Wired.setTab (w := { w with connections := w.connections ++ [newConnection i] }) ?_ i _
    have hmem : ∀ (n : Nat) (c : Connection), (w.connections ++ [newConnection i])[n]? = some c →
        w.connections[n]? = some c ∨ c = newConnection i := by
      intro n c hc
      rcases Nat.lt_or_ge n w.connections.length with hlt | hge
      · rw [List.getElem?_append_left hlt] at hc
        exact .inl hc
      · rw [List.getElem?_append_right hge] at hc
        exact .inr (List.mem_singleton.mp (List.mem_of_getElem? hc))
    refine ⟨h.rising, h.lines, h.recorded, fun n c hc => ?_, fun n m c c' ch hc hc' hch hch' => ?_⟩
    · obtain hc | rfl := hmem n c hc
      · exact h.served n c hc
      · exact served_new _ _
    · obtain hc | rfl := hmem n c hc
      · obtain hc' | rfl := hmem m c' hc'
        · exact h.apart n m c c' ch hc hc' hch hch'
        · cases hch'
      · cases hch
  | @subscribe n c broker get fresh hbroker =>
    obtain ⟨hrec, hserved⟩ := h.call (by simp) (by simp) hbroker
    obtain ⟨-, -, es, hact, hes, -⟩ := h.recorded.call (by simp) (by simp) hbroker
    obtain ⟨hmade, hnothing⟩ := act_subscribe hact
    obtain ⟨hwritten, hgreeted⟩ := (h.served n c get).silent fresh
    have hold := hserved n c get
    refine h.replace hrec (fun m x _ hx => hserved m x hx) ⟨⟨?_, ?_⟩, hold.arrived, hold.handled⟩
      fun m x _ hx ch hch hmade => ?_
    · show w.broker.1.made < broker.1.made
      rw [hmade]
      exact Nat.lt_succ_self _
    · show messagesIn c.written = receivedBy w.broker.1.made broker.2
      rw [hwritten, hes, hnothing, List.append_nil, (untouched h.recorded.known).2]
      rfl
    · cases hmade
      exact Nat.lt_irrefl _ ((h.served m x hx).made hch)
  | @greet n c ch get hch silent =>
    have hserved := h.served n c get
    obtain ⟨harrived, hevents⟩ := hserved.greet silent
    refine h.change get rfl ?_
    refine hserved.change hch rfl rfl ?_ ?_
    · show c.arrived ≤ _
      rw [harrived]
      exact Nat.zero_le _
    · rw [hevents]
      exact hserved.handled
  | @forward n c ch msg rest broker get hch greeted buffer hbroker =>
    have hserved := h.served n c get
    obtain ⟨hrec, hmade, es, hact, hes, -⟩ := h.recorded.call (by simp)
      (fun ch' hch' => by cases hch'; exact hserved.made hch) hbroker
    obtain ⟨msg', rest', hbuffer, rfl, -⟩ := Broker.receive_some hact
    rw [buffer] at hbuffer
    cases hbuffer
    obtain ⟨harrived, hevents⟩ := hserved.write greeted [some msg]
    refine h.update get rfl hrec (fun m x hm hx => ?_) ⟨?_, harrived, ?_⟩
    · refine (h.served m x hx).record hmade hes fun ch' hch' => ?_
      have hne : ch ≠ ch' := by
        rintro rfl
        exact hm (h.apart m n x c ch hx get hch' hch)
      simp [receivedBy, hne]
    · show match c.ch with
        | none => _
        | some ch => _
      rw [hch]
      refine ⟨Nat.lt_of_lt_of_le (hserved.made hch) hmade, ?_⟩
      rw [hes, receivedBy_append, ← hserved.messages hch, messagesIn_append]
      simp [receivedBy, messagesIn]
    · rw [hevents]
      exact hserved.handled
  | @keepAlive n c ch get hch greeted =>
    have hserved := h.served n c get
    obtain ⟨harrived, hevents⟩ := hserved.write greeted [none]
    refine h.change get rfl ?_
    refine hserved.change hch rfl ?_ harrived ?_
    · simp [messagesIn]
    · rw [hevents]
      exact hserved.handled
  | @leave n c ch broker get hch hbroker =>
    obtain ⟨hrec, hserved⟩ := h.call (by simp) (by simp) hbroker
    have hc := hserved n c get
    exact h.update get rfl hrec (fun m x _ hx => hserved m x hx)
      (hc.change hch rfl rfl hc.arrived hc.handled)
  | opened reading => exact h.setTab _ _
  | @arrive i k n c reading fits =>
    obtain ⟨-, get⟩ := reading_some reading
    have hserved := h.served n c get
    exact h.change get rfl
      ⟨hserved.written, fits, Nat.le_trans hserved.handled events_mono.length_le⟩
  | @handle i now n c e reading next =>
    obtain ⟨-, get⟩ := reading_some reading
    have hserved := h.served n c get
    refine Wired.setTab ?_ i _
    exact h.change get rfl
      ⟨hserved.written, hserved.arrived, (List.getElem?_eq_some_iff.mp next).1⟩
  | fail reading => exact h.setTab _ _

end Wired
end TradePulse.Feed
