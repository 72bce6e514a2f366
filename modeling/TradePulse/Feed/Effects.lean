import TradePulse.Gateway.Clients

/-! # What the steps of the broker leave in the record

For a connection only three things matter: what has been published, what each
channel has received, and which channels there are. -/
namespace TradePulse.Feed
open TradePulse.Core TradePulse.Gateway

/-! ## The record -/

/-- Everything that has been published. -/
def publishes (es : List BrokerEvent) : List Message :=
  es.filterMap fun
    | .published msg => some msg
    | _ => none

/-- The message of a publish that waits for the lock. -/
def awaits : Pc → List Message
  | .publishRLock msg => [msg]
  | _ => []

def awaiting (b : Broker) : List Message := awaits (b.pc .tailer)

def channelOf : BrokerEvent → Option Chan
  | .subscribed ch | .unsubscribed ch | .offered ch .. | .received ch _ => some ch
  | .published _ => none

theorem publishes_append (es fs : List BrokerEvent) :
    publishes (es ++ fs) = publishes es ++ publishes fs := List.filterMap_append ..

theorem receivedBy_append (ch : Chan) (es fs : List BrokerEvent) :
    receivedBy ch (es ++ fs) = receivedBy ch es ++ receivedBy ch fs := List.filterMap_append ..

section Span

variable {ch : Chan} {es : List BrokerEvent}

/-- What a channel has been there for since `m` messages had been published. -/
theorem span_grow {m : Nat} (h : (span ch es).Sublist ((publishes es).drop m))
    (hm : m ≤ (publishes es).length) (more : List BrokerEvent) :
    (span ch (es ++ more)).Sublist ((publishes (es ++ more)).drop m) := by
  induction more generalizing es with
  | nil => simpa using h
  | cons e more ih =>
    rw [List.append_cons]
    refine ih ?_ ?_
    · rw [span, List.foldl_append, publishes_append, List.drop_append_of_le_length hm]
      have hfold : es.foldl (noteSpan ch) (false, []) =
          ((es.foldl (noteSpan ch) (false, [])).1, span ch es) := rfl
      rw [hfold]
      generalize (es.foldl (noteSpan ch) (false, [])).1 = on
      cases e with
      | published msg =>
        cases on with
        | false => exact h.trans (List.sublist_append_left ..)
        | true => exact h.append (List.Sublist.refl _)
      | subscribed c => exact h.trans (List.sublist_append_left ..)
      | unsubscribed c => exact h.trans (List.sublist_append_left ..)
      | offered c msg held => exact h.trans (List.sublist_append_left ..)
      | received c msg => exact h.trans (List.sublist_append_left ..)
    · rw [publishes_append, List.length_append]
      exact Nat.le_add_right_of_le hm

/-- Nothing has happened on a channel that no event is about. -/
theorem untouched (h : ∀ e ∈ es, ∀ c, channelOf e = some c → c < ch) :
    span ch es = [] ∧ receivedBy ch es = [] := by
  suffices hall : es.foldl (noteSpan ch) (false, []) = (false, []) ∧ receivedBy ch es = [] from
    ⟨congrArg Prod.snd hall.1, hall.2⟩
  induction es with
  | nil => exact ⟨rfl, rfl⟩
  | cons e es ih =>
    obtain ⟨hfold, hreceived⟩ := ih fun e' he' => h e' (List.mem_cons_of_mem _ he')
    have hne : ∀ c, channelOf e = some c → c ≠ ch := fun c hc =>
      Nat.ne_of_lt (h e List.mem_cons_self c hc)
    rw [List.foldl_cons]
    cases e with
    | published msg => exact ⟨hfold, hreceived⟩
    | subscribed c =>
      have hc := hne c rfl
      refine ⟨?_, hreceived⟩
      simpa [noteSpan, hc] using hfold
    | unsubscribed c => exact ⟨hfold, hreceived⟩
    | offered c msg held => exact ⟨hfold, hreceived⟩
    | received c msg =>
      have hc := hne c rfl
      refine ⟨hfold, ?_⟩
      simpa [receivedBy, hc] using hreceived

end Span

/-! ## The effect of a step -/

/-- The record of a step and what waits after it. -/
structure Effect (b : Broker) (a : BrokerAct) (b' : Broker) (es : List BrokerEvent) : Prop where
  made : b.made ≤ b'.made
  known : ∀ e ∈ es, ∀ ch, channelOf e = some ch → ch < b'.made
  published : (∀ msg, a ≠ .publish msg) → publishes es ++ awaiting b' = awaiting b
  received : (∀ ch, a ≠ .receive ch) → ∀ ch, receivedBy ch es = []

section Steps

variable {b b' : Broker} {es : List BrokerEvent} {t : Tid} {p : Pc}

theorem awaiting_of_pc (h : awaits (b.pc t) = []) (hp : awaits p = [])
    (hpc : b'.pc = Function.update b.pc t p) : awaiting b' = awaiting b := by
  unfold awaiting
  rw [hpc]
  by_cases ht : t = .tailer
  · subst ht
    rw [Function.update_self, h, hp]
  · rw [Function.update_of_ne (Ne.symm ht)]

/-- A step that leaves no record. -/
theorem Effect.quiet {a : BrokerAct} (hmade : b.made ≤ b'.made) (h : awaits (b.pc t) = [])
    (hp : awaits p = []) (hpc : b'.pc = Function.update b.pc t p) : Effect b a b' [] :=
  ⟨hmade, fun _ he => absurd he List.not_mem_nil, fun _ => awaiting_of_pc h hp hpc, fun _ _ => rfl⟩

/-- A step whose record is about one channel. -/
theorem Effect.about {a : BrokerAct} {e : BrokerEvent} {ch : Chan} (hmade : b.made ≤ b'.made)
    (hch : ch < b'.made) (hchannel : channelOf e = some ch)
    (hreceived : (∀ ch, a ≠ .receive ch) → ∀ ch, receivedBy ch [e] = [])
    (hwaits : awaiting b' = awaiting b) : Effect b a b' [e] := by
  refine ⟨hmade, fun e' he' c hc => ?_, fun _ => ?_, hreceived⟩
  · rw [List.mem_singleton] at he'
    subst he'
    rw [hchannel] at hc
    cases hc
    exact hch
  · cases e with
    | published msg => cases hchannel
    | _ => exact hwaits

theorem effect_next (ho : Orderly b) (hs : b.next t = some (b', es)) :
    Effect b (.next t) b' es := by
  unfold Broker.next at hs
  split at hs
  next => cases hs
  next ch hp =>
    obtain ⟨b₁, hl, hs⟩ := Option.map_eq_some_iff.mp hs
    cases hs
    obtain ⟨-, -, rfl⟩ := lock_some hl
    exact .quiet (p := .subscribeInsert ch) (Nat.le_refl _) (by rw [hp]; rfl) rfl rfl
  next ch hp =>
    cases hs
    have hmade := ((ho.places t).claims ch (by rw [hp]; rfl)).1
    exact .about (Nat.le_refl _) hmade rfl (fun _ _ => rfl)
      (awaiting_of_pc (t := t) (p := .subscribeUnlock ch) (by rw [hp]; rfl) rfl rfl)
  next ch hp =>
    cases hs
    exact .quiet (p := .idle) (Nat.le_refl _) (by rw [hp]; rfl) rfl rfl
  next ch hp =>
    cases hs
    exact .quiet (p := .idle) (Nat.le_refl _) (by rw [hp]; rfl) rfl rfl
  next ch hp =>
    obtain ⟨b₁, hl, hs⟩ := Option.map_eq_some_iff.mp hs
    cases hs
    obtain ⟨-, -, rfl⟩ := lock_some hl
    exact .quiet (p := .unsubscribeDelete ch) (Nat.le_refl _) (by rw [hp]; rfl) rfl rfl
  next ch hp =>
    split at hs
    · rename_i hmem
      cases hs
      exact .about (Nat.le_refl _) (ho.clients ch hmem).1 rfl (fun _ _ => rfl)
        (awaiting_of_pc (t := t) (p := .unsubscribeClose ch) (by rw [hp]; rfl) rfl rfl)
    · cases hs
      exact .quiet (p := .unsubscribeUnlock ch) (Nat.le_refl _) (by rw [hp]; rfl) rfl rfl
  next ch hp =>
    rw [((ho.places t).claims ch (by rw [hp]; rfl)).2.2] at hs
    cases hs
    exact .quiet (p := .unsubscribeUnlock ch) (Nat.le_refl _) (by rw [hp]; rfl) rfl rfl
  next msg hp =>
    obtain ⟨b₁, hl, hs⟩ := Option.map_eq_some_iff.mp hs
    cases hs
    obtain rfl : t = .tailer := (ho.places t).publishes (by rw [hp]; rfl)
    unfold Broker.rLock at hl
    split at hl
    · cases hl
      refine ⟨Nat.le_refl _, fun e he c hc => ?_, fun _ => ?_, fun _ _ => rfl⟩
      · rw [List.mem_singleton] at he
        subst he
        cases hc
      · simp [awaiting, awaits, publishes, hp]
    · cases hl
  next msg rest hp =>
    split at hs
    · cases hs
      exact .quiet (p := .idle) (Nat.le_refl _) (by rw [hp]; rfl) rfl rfl
    · cases hs

theorem effect_act (ho : Orderly b) {a : BrokerAct} (hreceive : ∀ ch, a = .receive ch → ch < b.made)
    (hs : b.act a = some (b', es)) : Effect b a b' es := by
  cases a with
  | subscribe n =>
    simp only [Broker.act] at hs
    split at hs
    · rename_i hidle
      cases hs
      exact .quiet (p := .subscribeLock b.made) (Nat.le_succ _) (by rw [hidle]; rfl) rfl rfl
    · cases hs
  | unsubscribe n ch =>
    simp only [Broker.act] at hs
    split at hs
    · rename_i hidle
      cases hs
      exact .quiet (p := .unsubscribeLock ch) (Nat.le_refl _) (by rw [hidle.1]; rfl) rfl rfl
    · cases hs
  | publish msg =>
    simp only [Broker.act] at hs
    split at hs
    · cases hs
      exact ⟨Nat.le_refl _, fun _ he => absurd he List.not_mem_nil, fun h => absurd rfl (h msg),
        fun _ _ => rfl⟩
    · cases hs
  | next t => exact effect_next ho hs
  | send ch =>
    obtain ⟨msg, rest, hp, hmem, rfl, rfl⟩ := Broker.send_some ho hs
    have hlisted := ((ho.places .tailer).ranges rest (by rw [hp]; rfl)).2 hmem
    exact .about (Nat.le_refl _) (ho.clients ch hlisted).1 rfl (fun _ _ => rfl)
      (awaiting_of_pc (t := .tailer) (p := .publishRange msg (rest.erase ch))
        (by rw [hp]; rfl) rfl rfl)
  | receive ch =>
    obtain ⟨msg, rest, -, rfl, rfl⟩ := Broker.receive_some hs
    exact .about (Nat.le_refl _) (hreceive ch rfl) rfl (fun h => absurd rfl (h ch)) rfl

/-- A publish begins. -/
theorem act_publish {msg : Message} (hs : b.act (.publish msg) = some (b', es)) :
    es = [] ∧ awaiting b = [] ∧ awaiting b' = [msg] ∧ b'.made = b.made := by
  simp only [Broker.act] at hs
  split at hs
  · rename_i hidle
    cases hs
    refine ⟨rfl, by rw [awaiting, hidle]; rfl, ?_, rfl⟩
    rw [awaiting, goto_pc_self]
    rfl
  · cases hs

/-- A channel is made. -/
theorem act_subscribe {n : Nat} (hs : b.act (.subscribe n) = some (b', es)) :
    b'.made = b.made + 1 ∧ es = [] := by
  simp only [Broker.act] at hs
  split at hs
  · cases hs
    exact ⟨rfl, rfl⟩
  · cases hs

end Steps
end TradePulse.Feed
