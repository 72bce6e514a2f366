import TradePulse.Feed.Links

/-! # The pages follow the streams

Connections fail and are opened anew, and slow clients miss messages. What a
page has handled over all its connections is still, in order and at most once
each, what is on the streams. -/
namespace TradePulse.Feed
open TradePulse.Core TradePulse.Core.EventStream TradePulse.Core.Runs TradePulse.Gateway
open TradePulse.Dashboard

variable {N : Type} {names : Names} {w w' : LiveFeed N}

/-! ## One connection -/

theorem span_sublist (ch : Chan) (es : List BrokerEvent) :
    (span ch es).Sublist (publishes es) := by
  have h : (span ch ([] ++ es)).Sublist ((publishes ([] ++ es)).drop 0) :=
    span_grow (List.Sublist.refl _) (Nat.zero_le _) es
  simpa using h

theorem Wired.publishes_front (h : Wired names w) :
    publishes w.broker.2 <+: w.tail.published.map (·.2) := ⟨_, h.recorded.published⟩

theorem mem_messages {t : StreamTailer} {s : String} {es : List Entry} {msg : Message}
    (h : msg ∈ messages t s es) : ∃ e ∈ es, msg.Data = e.payload := by
  obtain ⟨e, he, rfl⟩ := List.mem_map.mp h
  exact ⟨e, (List.mem_filter.mp he).1, rfl⟩

/-- What is published came from a configured stream, on one line. -/
theorem Wired.sound (h : Wired names w) {msg : Message} (hmsg : msg ∈ publishes w.broker.2) :
    Sound msg := by
  obtain ⟨⟨s, msg⟩, hp, rfl⟩ := List.mem_map.mp (h.publishes_front.subset hmsg)
  obtain ⟨hname, hevent⟩ := h.rising.streams _ hp
  have hfor : msg ∈ w.tail.publishedFor s := by
    unfold TailState.publishedFor
    exact List.mem_map.mpr ⟨(s, msg), List.mem_filter.mpr ⟨hp, by simp⟩, rfl⟩
  obtain ⟨e, he, hdata⟩ := mem_messages ((h.rising.sublist s).subset hfor)
  refine ⟨?_, ?_⟩
  · simp only [Names.tailer, StreamTailer.streamNames, List.map_cons, List.map_nil, List.mem_cons,
      List.not_mem_nil, or_false] at hname
    rw [hevent]
    rcases hname with rfl | rfl
    · simp [StreamTailer.eventName, Names.tailer, eventNames]
    · simp [StreamTailer.eventName, Names.tailer, eventNames, List.lookup_cons,
        beq_false_of_ne names.apart.symm]
  · show OneLine msg.Data.toList
    rw [hdata]
    exact h.lines s e he

theorem Wired.received (h : Wired names w) (ch : Chan) :
    (receivedBy ch w.broker.2).Sublist (span ch w.broker.2) :=
  (List.sublist_append_left ..).trans (h.recorded.traced ch).delivery.subsequence

/-- The messages that a handler has written are sound. -/
theorem Wired.sound_written (h : Wired names w) {n : Nat} {c : Connection}
    (get : w.connections[n]? = some c) : ∀ msg ∈ messagesIn c.written, Sound msg := by
  intro msg hmsg
  have hserved := h.served n c get
  cases hch : c.ch with
  | none =>
    rw [(hserved.silent hch).1] at hmsg
    cases hmsg
  | some ch =>
    rw [hserved.messages hch] at hmsg
    exact h.sound (((h.received ch).trans (span_sublist ch _)).subset hmsg)

/-- What has been dispatched of a response are its first messages. -/
theorem Wired.events_front (h : Wired names w) {n : Nat} {c : Connection}
    (get : w.connections[n]? = some c) : c.events <+: (messagesIn c.written).map dispatched := by
  unfold Connection.events Connection.sent
  split
  · exact eventSource_take_body (h.sound_written get) _
  · rw [List.take_nil]
    exact List.nil_prefix

/-- A connection brings its page what was published since it subscribed. -/
theorem Wired.events_sublist (h : Wired names w) {n : Nat} {c : Connection}
    (get : w.connections[n]? = some c) {ch : Chan} (hch : c.ch = some ch) :
    c.events.Sublist ((span ch w.broker.2).map dispatched) := by
  refine (h.events_front get).sublist.trans ?_
  rw [(h.served n c get).messages hch]
  exact (h.received ch).map _

theorem Wired.no_events (h : Wired names w) {n : Nat} {c : Connection}
    (get : w.connections[n]? = some c) (hch : c.ch = none) : c.events = [] := by
  have hfront := h.events_front get
  rw [((h.served n c get).silent hch).1] at hfront
  exact List.prefix_nil.mp hfront

/-! ## One page after another connection -/

/-- The open connection of page `i` and what was handled before it: all of that
had been published when it was opened. -/
structure Open (w : LiveFeed N) (i n : Nat) (c : Connection) (m : Nat) (before : List Dispatched) :
    Prop where
  get : w.connections[n]? = some c
  own : c.tab = i
  le : m ≤ (publishes w.broker.2).length
  earlier : before.Sublist (((publishes w.broker.2).take m).map dispatched)
  handled : (w.tabs i).handled.map (·.1) = before ++ c.events.take c.handled
  since : ∀ ch, c.ch = some ch → (span ch w.broker.2).Sublist ((publishes w.broker.2).drop m)

/-- The invariant of a page. -/
def Joined (w : LiveFeed N) (i : Nat) : Prop :=
  match (w.tabs i).connection with
  | none => ((w.tabs i).handled.map (·.1)).Sublist ((publishes w.broker.2).map dispatched)
  | some n => ∃ c m before, Open w i n c m before

theorem Open.sublist {i n m : Nat} {c : Connection} {before : List Dispatched}
    (h : Wired names w) (ho : Open w i n c m before) :
    ((w.tabs i).handled.map (·.1)).Sublist ((publishes w.broker.2).map dispatched) := by
  rw [ho.handled, ← List.take_append_drop m (publishes w.broker.2), List.map_append]
  refine ho.earlier.append ((List.take_sublist ..).trans ?_)
  cases hch : c.ch with
  | none =>
    rw [h.no_events ho.get hch]
    exact List.nil_sublist _
  | some ch => exact (h.events_sublist ho.get hch).trans ((ho.since ch hch).map _)

theorem Joined.sublist {i : Nat} (h : Wired names w) (hj : Joined w i) :
    ((w.tabs i).handled.map (·.1)).Sublist ((publishes w.broker.2).map dispatched) := by
  unfold Joined at hj
  split at hj
  · exact hj
  · obtain ⟨c, m, before, ho⟩ := hj
    exact ho.sublist h

/-- A connection goes on, and its page has handled no more of it. -/
structure Goes (w' : LiveFeed N) (c c' : Connection) : Prop where
  own : c'.tab = c.tab
  handled : c'.events.take c'.handled = c.events.take c.handled
  ch : ∀ ch, c'.ch = some ch → c.ch = some ch ∨ span ch w'.broker.2 = []

theorem Goes.refl (w : LiveFeed N) (c : Connection) : Goes w c c := ⟨rfl, rfl, fun _ => .inl⟩

/-- The page itself has no part in a step. -/
theorem Joined.frame {i : Nat} (hj : Joined w i) (more : List BrokerEvent)
    (hbroker : w'.broker.2 = w.broker.2 ++ more)
    (hconnection : (w'.tabs i).connection = (w.tabs i).connection)
    (hhandled : (w'.tabs i).handled = (w.tabs i).handled)
    (hgoes : ∀ (n : Nat) (c : Connection), (w.tabs i).connection = some n →
      w.connections[n]? = some c → c.tab = i → ∃ c', w'.connections[n]? = some c' ∧ Goes w' c c') :
    Joined w' i := by
  unfold Joined at hj ⊢
  rw [hconnection]
  cases hconn : (w.tabs i).connection with
  | none =>
    rw [hconn] at hj
    rw [hhandled, hbroker, publishes_append, List.map_append]
    exact hj.trans (List.sublist_append_left ..)
  | some n =>
    rw [hconn] at hj
    obtain ⟨c, m, before, ho⟩ := hj
    obtain ⟨c', get', hgo⟩ := hgoes n c hconn ho.get ho.own
    refine ⟨c', m, before, get', hgo.own.trans ho.own, ?_, ?_, ?_, fun ch hch => ?_⟩
    · rw [hbroker, publishes_append, List.length_append]
      exact Nat.le_add_right_of_le ho.le
    · rw [hbroker, publishes_append, List.take_append_of_le_length ho.le]
      exact ho.earlier
    · rw [hhandled, hgo.handled, ho.handled]
    · obtain hold | hnew := hgo.ch ch hch
      · rw [hbroker]
        exact span_grow (ho.since ch hold) ho.le more
      · rw [hnew]
        exact List.nil_sublist _

/-- One connection changes, and goes on. -/
theorem Joined.goes {i n : Nat} {c c' : Connection} (hj : Joined w i)
    (get : w.connections[n]? = some c) (more : List BrokerEvent)
    (hbroker : w'.broker.2 = w.broker.2 ++ more) (htabs : w'.tabs = w.tabs)
    (hconn : w'.connections = w.connections.set n c') (hgo : Goes w' c c') : Joined w' i := by
  refine hj.frame more hbroker (by rw [htabs]) (by rw [htabs]) fun m x _ hx _ => ?_
  by_cases hm : n = m
  · subst hm
    cases get.symm.trans hx
    refine ⟨c', ?_, hgo⟩
    rw [hconn, List.getElem?_set_self (List.getElem?_eq_some_iff.mp get).1]
  · refine ⟨x, ?_, .refl _ _⟩
    rw [hconn, List.getElem?_set_ne hm, hx]

/-! ## Steps -/

section Steps

theorem setTab_self (w : LiveFeed N) (i : Nat) (t : Tab N) : (w.setTab i t).tabs i = t :=
  Function.update_self ..

theorem setTab_of_ne (w : LiveFeed N) {i j : Nat} (h : j ≠ i) (t : Tab N) :
    (w.setTab i t).tabs j = w.tabs j := Function.update_of_ne h ..

/-- What the new state of a page leaves as it was. -/
theorem setTab_congr {β : Type} (f : Tab N → β) {j : Nat} {t : Tab N} (h : f t = f (w.tabs j))
    (i : Nat) : f ((w.setTab j t).tabs i) = f (w.tabs i) := by
  by_cases hij : i = j
  · subst hij
    rw [setTab_self, h]
  · rw [setTab_of_ne w hij]

/-- A page opens a connection: whatever it has handled has been published. -/
theorem Joined.connect {i : Nat} (hj : Joined w i) (closed : (w.tabs i).connection = none) :
    Joined (({ w with connections := w.connections ++ [newConnection i] } : LiveFeed N).setTab i
      { w.tabs i with connection := some w.connections.length }) i := by
  unfold Joined at hj ⊢
  rw [closed] at hj
  rw [setTab_self]
  refine ⟨newConnection i, (publishes w.broker.2).length, (w.tabs i).handled.map (·.1), ?_, rfl,
    Nat.le_refl _, ?_, ?_, nofun⟩
  · exact List.getElem?_concat_length
  · show List.Sublist _ (((publishes w.broker.2).take (publishes w.broker.2).length).map dispatched)
    rw [List.take_length]
    exact hj
  · rw [setTab_self]
    exact (List.append_nil _).symm

variable [JsNumber N] {parse : Parse N} {i : Nat}

/-- A page handles the next event. -/
theorem Joined.handle {now n : Nat} {c : Connection} {e : Dispatched} (hj : Joined w i)
    (hconn : (w.tabs i).connection = some n) (get : w.connections[n]? = some c)
    (next : c.events[c.handled]? = some e) :
    Joined ((w.setConnection n { c with handled := c.handled + 1 }).setTab i
      { w.tabs i with
        page := (w.tabs i).page.handle parse e now
        handled := (w.tabs i).handled ++ [(e, now)] }) i := by
  unfold Joined at hj ⊢
  rw [hconn] at hj
  rw [setTab_self]
  obtain ⟨c', m, before, ho⟩ := hj
  cases get.symm.trans ho.get
  simp only [hconn]
  refine ⟨{ c with handled := c.handled + 1 }, m, before, ?_, ho.own, ho.le, ho.earlier, ?_, ho.since⟩
  · exact List.getElem?_set_self (List.getElem?_eq_some_iff.mp get).1
  · have htake : c.events.take (c.handled + 1) = c.events.take c.handled ++ [e] := by
      rw [List.take_add_one, next, Option.toList_some]
    show ((w.setConnection n _).setTab i _ |>.tabs i).handled.map (·.1) =
      before ++ c.events.take (c.handled + 1)
    rw [setTab_self, List.map_append, ho.handled, htake, List.append_assoc]
    rfl

/-- A step keeps what each page has handled in order. -/
theorem Joined.step {a : Act} (h : Wired names w) (hall : ∀ i, Joined w i)
    (hs : Step names parse w a w') (i : Nat) : Joined w' i := by
  have hj := hall i
  cases hs with
  | tail htail hbroker =>
    obtain ⟨-, hes, -⟩ := h.recorded.tailed htail hbroker
    exact hj.frame [] (hes.trans (List.append_nil _).symm) rfl rfl
      fun n c _ get _ => ⟨c, get, .refl _ _⟩
  | call own hbroker =>
    obtain ⟨es, -, hes⟩ := brokerStep_some hbroker
    exact hj.frame es hes rfl rfl fun n c _ get _ => ⟨c, get, .refl _ _⟩
  | @connect j closed =>
    by_cases hij : i = j
    · subst hij
      exact hj.connect closed
    · refine hj.frame [] (List.append_nil _).symm ?_ ?_ fun n c _ get _ =>
        ⟨c, ?_, .refl _ _⟩
      · rw [setTab_of_ne _ hij]
      · rw [setTab_of_ne _ hij]
      · exact (List.getElem?_append_left (List.getElem?_eq_some_iff.mp get).1).trans get
  | @subscribe n c broker get fresh hbroker =>
    obtain ⟨es, hact, hes⟩ := brokerStep_some hbroker
    obtain ⟨-, rfl⟩ := act_subscribe hact
    refine hj.goes get [] hes rfl rfl ⟨rfl, rfl, fun ch hch => .inr ?_⟩
    cases hch
    show span w.broker.1.made broker.2 = []
    rw [hes, List.append_nil]
    exact (untouched h.recorded.known).1
  | @greet n c ch get hch silent =>
    have hevents := ((h.served n c get).greet silent).2
    exact hj.goes get [] (List.append_nil _).symm rfl rfl
      ⟨rfl, congrArg (List.take c.handled) hevents, fun _ => .inl⟩
  | @forward n c ch msg rest broker get hch greeted buffer hbroker =>
    have hevents := ((h.served n c get).write greeted [some msg]).2
    obtain ⟨es, -, hes⟩ := brokerStep_some hbroker
    exact hj.goes get es hes rfl rfl ⟨rfl, congrArg (List.take c.handled) hevents, fun _ => .inl⟩
  | @keepAlive n c ch get hch greeted =>
    have hevents := ((h.served n c get).write greeted [none]).2
    exact hj.goes get [] (List.append_nil _).symm rfl rfl
      ⟨rfl, congrArg (List.take c.handled) hevents, fun _ => .inl⟩
  | @leave n c ch broker get hch hbroker =>
    obtain ⟨es, -, hes⟩ := brokerStep_some hbroker
    exact hj.goes get es hes rfl rfl ⟨rfl, rfl, fun _ => .inl⟩
  | @opened j n c reading =>
    exact hj.frame [] (List.append_nil _).symm (setTab_congr (·.connection) (by rfl) i)
      (setTab_congr (·.handled) (by rfl) i) fun n c _ get _ => ⟨c, get, .refl _ _⟩
  | @arrive j k n c reading fits =>
    obtain ⟨-, get⟩ := reading_some reading
    obtain ⟨rest, hrest⟩ := events_mono (c := c) (k := k)
    refine hj.goes get [] (List.append_nil _).symm rfl rfl ⟨rfl, ?_, fun _ => .inl⟩
    show (Connection.events { c with arrived := c.arrived + k }).take c.handled = _
    rw [← hrest, List.take_append_of_le_length (h.served n c get).handled]
  | @handle j now n c e reading next =>
    obtain ⟨hconn, get⟩ := reading_some reading
    by_cases hij : i = j
    · subst hij
      exact hj.handle hconn get next
    · refine hj.frame [] (List.append_nil _).symm ?_ ?_ fun m x _ hx hown => ?_
      · rw [setTab_of_ne _ hij]
        rfl
      · rw [setTab_of_ne _ hij]
        rfl
      · -- the other page reads another connection
        have hother := hall j
        unfold Joined at hother
        rw [hconn] at hother
        obtain ⟨c', m', before, ho⟩ := hother
        cases get.symm.trans ho.get
        refine ⟨x, ?_, .refl _ _⟩
        refine (List.getElem?_set_ne ?_).trans hx
        rintro rfl
        cases get.symm.trans hx
        exact hij (hown.symm.trans ho.own)
  | @fail j n c reading =>
    by_cases hij : i = j
    · subst hij
      unfold Joined
      rw [setTab_self]
      exact hj.sublist h
    · refine hj.frame [] (List.append_nil _).symm ?_ ?_ fun n c _ get _ =>
        ⟨c, get, .refl _ _⟩
      · rw [setTab_of_ne _ hij]
      · rw [setTab_of_ne _ hij]

/-- A step leaves what a page has handled and shows, but for its status, or the
page handles one event more. -/
theorem tab_step {a : Act} (hs : Step names parse w a w') (i : Nat) :
    ((w'.tabs i).handled = (w.tabs i).handled ∧
      ∃ status, (w'.tabs i).page = { (w.tabs i).page with status }) ∨
    ∃ e now, (w'.tabs i).handled = (w.tabs i).handled ++ [(e, now)] ∧
      (w'.tabs i).page = (w.tabs i).page.handle parse e now := by
  cases hs with
  | connect closed =>
    exact .inl ⟨setTab_congr (·.handled) (by rfl) i, (w.tabs i).page.status,
      setTab_congr (·.page) (by rfl) i⟩
  | @opened j n c reading =>
    refine .inl ⟨setTab_congr (·.handled) (by rfl) i, ?_⟩
    by_cases hij : i = j
    · subst hij
      exact ⟨.open, by rw [setTab_self]⟩
    · exact ⟨_, by rw [setTab_of_ne _ hij]⟩
  | @handle j now n c e reading next =>
    by_cases hij : i = j
    · subst hij
      exact .inr ⟨e, now, by rw [setTab_self], by rw [setTab_self]⟩
    · rw [setTab_of_ne _ hij]
      exact .inl ⟨rfl, _, rfl⟩
  | @fail j n c reading =>
    refine .inl ⟨setTab_congr (·.handled) (by rfl) i, ?_⟩
    by_cases hij : i = j
    · subst hij
      exact ⟨.reconnecting, by rw [setTab_self]⟩
    · exact ⟨_, by rw [setTab_of_ne _ hij]⟩
  | tail | call | subscribe | greet | forward | keepAlive | leave | arrive =>
    exact .inl ⟨rfl, _, rfl⟩

/-- What a page shows is what it has handled. -/
theorem shows_step {a : Act} {i : Nat} (h : (w.tabs i).page.Shows parse (w.tabs i).handled)
    (hs : Step names parse w a w') : (w'.tabs i).page.Shows parse (w'.tabs i).handled := by
  obtain ⟨hhandled, status, hpage⟩ | ⟨e, now, hhandled, hpage⟩ := tab_step hs i
  · rw [hhandled, hpage]
    exact h.status status
  · rw [hhandled, hpage]
    exact h.handle e now

end Steps

/-! ## Runs -/

section Runs

variable [JsNumber N] {parse : Parse N}

omit [JsNumber N] in
theorem wired_start (h : start w) : Wired names w := by
  obtain ⟨⟨htail, hlines⟩, hbroker, hconnections, -⟩ := h
  have hnone : ∀ (n : Nat) (c : Connection), w.connections[n]? ≠ some c := by
    intro n c hc
    rw [hconnections] at hc
    cases hc
  have hevents : w.broker.2 = [] := hbroker.2.2.2.2.2.2
  have hpc : ∀ t, w.broker.1.pc t = .idle := hbroker.2.2.2.2.1
  refine ⟨rising_connected htail, hlines, ⟨orderly_new hbroker, traced_new hbroker, ?_, ?_⟩,
    fun n c hc => absurd hc (hnone n c), fun n m c c' ch hc => absurd hc (hnone n c)⟩
  · rw [hevents, htail.2.2.1, awaiting, hpc]
    rfl
  · rw [hevents]
    exact fun e he => absurd he List.not_mem_nil

theorem wired_of_reach (h : Reach (step names parse) oneLine start w) : Wired names w :=
  h.invariant (fun _ => wired_start) fun _ _ _ hw hok hs => hw.step hok (step_inv hs)

theorem joined_of_reach (h : Reach (step names parse) oneLine start w) (i : Nat) : Joined w i := by
  refine h.invariant_under (I := fun w => ∀ i, Joined w i) (J := Wired names)
    (fun _ => wired_of_reach) (fun w hw i => ?_) (fun w a w' hw _ hj _ hs => ?_) i
  · rw [Joined, hw.2.2.2 i]
    exact List.nil_sublist _
  · exact Joined.step hw hj (step_inv hs)

theorem shows_of_reach (h : Reach (step names parse) oneLine start w) (i : Nat) :
    (w.tabs i).page.Shows parse (w.tabs i).handled := by
  refine h.invariant (I := fun w : LiveFeed N => (w.tabs i).page.Shows parse (w.tabs i).handled)
    (fun w hw => ?_) fun w a w' hI _ hs => shows_step hI (step_inv hs)
  rw [hw.2.2.2 i]
  exact shows_initial parse

end Runs

/-! ## The streams -/

theorem names_streams (names : Names) {s : String} (h : s ∈ names.tailer.streamNames) :
    s = names.ticks ∧ names.tailer.eventName s = "ticks" ∨
      s = names.risk ∧ names.tailer.eventName s = "risk" := by
  simp only [Names.tailer, StreamTailer.streamNames, List.map_cons, List.map_nil, List.mem_cons,
    List.not_mem_nil, or_false] at h
  rcases h with rfl | rfl
  · exact .inl ⟨rfl, by simp [StreamTailer.eventName, Names.tailer]⟩
  · refine .inr ⟨rfl, ?_⟩
    simp [StreamTailer.eventName, Names.tailer, List.lookup_cons, beq_false_of_ne names.apart.symm]

/-- A stream of the gateway and the type of its events. -/
inductive Names.Carries (names : Names) : String → String → Prop
  | ticks : names.Carries names.ticks "ticks"
  | risk : names.Carries names.risk "risk"

/-- The messages of a type are those of its stream. -/
theorem Wired.messages_of_type (h : Wired names w) {s type : String} (hs : names.Carries s type) :
    (w.tail.published.map (·.2)).filter (fun m => decide (m.Event = type)) =
      w.tail.publishedFor s := by
  rw [List.filter_map, TailState.publishedFor]
  refine congrArg (List.map _) (List.filter_congr fun p hp => ?_)
  obtain ⟨hname, hevent⟩ := h.rising.streams p hp
  rw [Function.comp_apply, hevent]
  have hticks := names.apart
  obtain ⟨hp1, hp2⟩ | ⟨hp1, hp2⟩ := names_streams names hname
  · rw [hp2, hp1]
    cases hs with
    | ticks => simp
    | risk => simp [hticks]
  · rw [hp2, hp1]
    cases hs with
    | ticks => simp [hticks.symm]
    | risk => simp

/-- The data of the events of one type. -/
theorem framesOf_data (type : String) (handled : List (Dispatched × Nat)) :
    (framesOf type handled).map (·.1) =
      ((handled.map (·.1)).filter (·.1 = type.toList)).map (·.2) := by
  simp [framesOf, List.filter_map, Function.comp_def]

theorem dispatched_data (type : String) (msgs : List Message) :
    ((msgs.map dispatched).filter (·.1 = type.toList)).map (·.2) =
      (msgs.filter fun m => decide (m.Event = type)).map (·.Data.toList) := by
  have hname : ∀ m : Message, decide ((dispatched m).1 = type.toList) = decide (m.Event = type) := by
    intro m
    exact decide_eq_decide.mpr String.toList_inj
  simp only [List.filter_map, Function.comp_def, hname, List.map_map]
  rfl

theorem messages_data {t : StreamTailer} (s : String) (es : List Entry) :
    ((messages t s es).map (·.Data.toList)).Sublist (es.map (·.payload.toList)) := by
  rw [messages, List.map_map]
  exact List.filter_sublist.map _

/-- **What a page has handled of a stream.** -/
theorem frames_sublist [JsNumber N] {parse : Parse N}
    (h : Reach (step names parse) oneLine start w) (i : Nat) {s type : String}
    (hs : names.Carries s type) :
    ((framesOf type (w.tabs i).handled).map (·.1)).Sublist
      ((w.tail.logs s).map (·.payload.toList)) := by
  have hw := wired_of_reach h
  have hhandled := ((joined_of_reach h i).sublist hw).trans (hw.publishes_front.sublist.map _)
  rw [framesOf_data]
  refine ((hhandled.filter _).map _).trans ?_
  rw [dispatched_data, hw.messages_of_type hs]
  exact ((hw.rising.sublist s).map _).trans (messages_data s _)

/-- What a page has handled stays. -/
theorem handled_grows [JsNumber N] {parse : Parse N} {ok : LiveFeed N → Act → Prop}
    (h : Reach (step names parse) ok (· = w) w') (i : Nat) :
    (w.tabs i).handled <+: (w'.tabs i).handled := by
  refine h.invariant (I := fun v => (w.tabs i).handled <+: (v.tabs i).handled)
    (fun v hv => hv ▸ List.prefix_refl _) fun v a v' hI _ hs => ?_
  obtain ⟨hsame, -⟩ | ⟨e, now, hmore, -⟩ := tab_step (step_inv hs) i
  · rw [hsame]
    exact hI
  · rw [hmore]
    exact hI.trans (List.prefix_append ..)

/-- **A page follows the streams.** In every run, whatever connections have
failed and however the bytes were cut, a page has handled entries of each
stream in their order, each at most once, and shows of them the newest tick of
each symbol, the newest 50 ticks and the newest risk events; and it never goes
back. -/
theorem feed_in_order [JsNumber N] {parse : Parse N}
    (h : Reach (step names parse) oneLine start w) (i : Nat) :
    (w.tabs i).page.Shows parse (w.tabs i).handled ∧
      (∀ s type, names.Carries s type → ((framesOf type (w.tabs i).handled).map (·.1)).Sublist
        ((w.tail.logs s).map (·.payload.toList))) ∧
      ∀ w', Reach (step names parse) oneLine (· = w) w' →
        (w.tabs i).handled <+: (w'.tabs i).handled :=
  ⟨shows_of_reach h i, fun _ _ hs => frames_sublist h i hs, fun _ h' => handled_grows h' i⟩

/-! ## A page that reconnects -/

instance : JsNumber Nat := ⟨(· == 0), toString⟩

def gatewayNames : Names := ⟨"market.ticks", "risk.updates", by decide⟩

def tickJson (price : String) : String :=
  "\x7b\"data\":\x7b\"symbol\":\"AAPL\",\"price\":" ++ price ++ "\x7d\x7d"

/-- `JSON.parse` of three ticks. -/
def parseTicks (data : List Char) : Option (JsValue Nat) :=
  ([1, 2, 3].find? fun n => decide ((tickJson (toString n)).toList = data)).map fun n =>
    .object [("data", .object [("symbol", .string "AAPL"), ("price", .number n)])]

def beforeStart : LiveFeed Nat :=
  ⟨Gateway.atConnect, freshBroker, [], fun _ => ⟨none, Page.initial, []⟩⟩

/-- The page connects. -/
def connecting (n : Nat) : List Act :=
  [.connect 0, .subscribe n, .handler n, .handler n, .handler n, .greet n, .opened 0]

/-- A tick is appended, and published to the clients. -/
def ticking (price : String) (clients : List Chan) : List Act :=
  [.tail (.append "market.ticks" (Gateway.event (tickJson price))), .tail .take, .publish] ++
    clients.map .send ++ [.publish, .tail .take, .tail .iterate]

/-- The page reads the first tick, its connection fails, the second tick goes
to the connection it has left, and it reads the third. -/
def reconnecting : List Act :=
  connecting 0 ++ [.tail .iterate] ++ ticking "1" [0] ++
    [.forward 0, .arrive 0 20, .arrive 0 50, .handle 0 5, .fail 0] ++ ticking "2" [0] ++
    connecting 1 ++ ticking "3" [1, 0] ++ [.forward 1, .arrive 0 70, .handle 0 9]

theorem feed_in_order_reconnecting : ∃ w : LiveFeed Nat,
    ((framesOf "ticks" (w.tabs 0).handled).map (·.1) =
      [(tickJson "1").toList, (tickJson "3").toList]) ∧
    (w.tabs 0).page.tickLog.map (·.seen) = [9, 5] ∧
    ((framesOf "ticks" (w.tabs 0).handled).map (·.1)).Sublist
      ((w.tail.logs "market.ticks").map (·.payload.toList)) := by
  obtain ⟨w, hreach, hw⟩ := Reach.exists_of_run (step gatewayNames parseTicks) oneLine start
    reconnecting (fun w => decide ((framesOf "ticks" (w.tabs 0).handled).map (·.1) =
      [(tickJson "1").toList, (tickJson "3").toList] ∧
        (w.tabs 0).page.tickLog.map (·.seen) = [9, 5])) (s := beforeStart)
    ⟨⟨Gateway.atConnect_connected, fun _ _ he => absurd he List.not_mem_nil⟩,
      ⟨rfl, rfl, fun _ => rfl, rfl, fun _ => rfl, rfl, rfl⟩, rfl, fun _ => rfl⟩ (by decide +kernel)
  obtain ⟨hframes, hlog⟩ := of_decide_eq_true hw
  exact ⟨w, hframes, hlog, (feed_in_order hreach 0).2.1 _ _ .ticks⟩

end TradePulse.Feed
