import TradePulse.Core.Runs
import TradePulse.Gateway.Tailer
import Mathlib.Data.Finset.Basic
import Mathlib.Data.Finset.Insert

/-! # `Broker`

The handlers of `/stream` come and go, each with a channel of its own, while
the tailer publishes. Every call of the broker is taken apart into its
statements and takes the lock where the source takes it; the order in which a
publish visits the clients is any order. Whoever lists or closes a channel does
so alone and only once, so a publish finds the channels of its range open. -/
namespace TradePulse.Gateway
open TradePulse.Core TradePulse.Core.Runs

/-! ## Model -/

/-- A channel made by `subscribe`. -/
abbrev Chan := Nat

/-- The capacity of `make(chan Message, 128)`. -/
def capacity : Nat := 128

structure Channel where
  buffer : List Message
  closed : Bool

/-- The goroutines: the tailer, and the handlers of `/stream`. -/
inductive Tid where
  | tailer
  | handler (n : Nat)
  deriving DecidableEq

structure RWMutex where
  writer : Option Tid
  readers : Finset Tid

/-- The statement of a broker call that a goroutine executes next. -/
inductive Pc where
  | idle
  | subscribeLock (ch : Chan)
  | subscribeInsert (ch : Chan)
  | subscribeUnlock (ch : Chan)
  | unsubscribeLock (ch : Chan)
  | unsubscribeDelete (ch : Chan)
  | unsubscribeClose (ch : Chan)
  | unsubscribeUnlock (ch : Chan)
  | publishRLock (msg : Message)
  | publishRange (msg : Message) (rest : Finset Chan)
  deriving DecidableEq

inductive Panic where
  | sendOnClosedChannel
  | closeOfClosedChannel
  deriving DecidableEq

structure Broker where
  mu : RWMutex
  clients : Finset Chan
  channels : Chan → Channel
  made : Nat
  pc : Tid → Pc
  panicked : Option Panic

/-- What an observer of the broker notes. -/
inductive BrokerEvent where
  | subscribed (ch : Chan)
  | unsubscribed (ch : Chan)
  | published (msg : Message)
  /-- The publish has come to the channel, which held so many messages. -/
  | offered (ch : Chan) (msg : Message) (held : Nat)
  | received (ch : Chan) (msg : Message)

inductive BrokerAct where
  | subscribe (n : Nat)
  | unsubscribe (n : Nat) (ch : Chan)
  | publish (msg : Message)
  /-- The next statement of a call. -/
  | next (t : Tid)
  /-- The `select` of a publish, for the client that comes next. -/
  | send (ch : Chan)
  | receive (ch : Chan)

def Broker.goto (b : Broker) (t : Tid) (p : Pc) : Broker :=
  { b with pc := Function.update b.pc t p }

def Broker.setChannel (b : Broker) (ch : Chan) (c : Channel) : Broker :=
  { b with channels := Function.update b.channels ch c }

section Updates

variable (b : Broker) (t : Tid) (p : Pc) (ch : Chan) (c : Channel)

@[simp] theorem goto_pc_self : (b.goto t p).pc t = p := Function.update_self ..
@[simp] theorem goto_channels : (b.goto t p).channels = b.channels := rfl
@[simp] theorem setChannel_self : (b.setChannel ch c).channels ch = c := Function.update_self ..

theorem setChannel_of_ne {ch' : Chan} (h : ch' ≠ ch) :
    (b.setChannel ch c).channels ch' = b.channels ch' := Function.update_of_ne h ..

end Updates

/-- `b.mu.Lock()` is granted when nobody holds the lock. -/
def Broker.lock (b : Broker) (t : Tid) (p : Pc) : Option Broker :=
  if b.mu.writer = none ∧ b.mu.readers = ∅ then
    some ({ b with mu := { b.mu with writer := some t } }.goto t p)
  else none

def Broker.unlock (b : Broker) (t : Tid) : Broker :=
  { b with mu := { b.mu with writer := none } }.goto t .idle

/-- `b.mu.RLock()` is granted when nobody writes. -/
def Broker.rLock (b : Broker) (t : Tid) (p : Pc) : Option Broker :=
  if b.mu.writer = none then
    some ({ b with mu := { b.mu with readers := insert t b.mu.readers } }.goto t p)
  else none

def Broker.rUnlock (b : Broker) (t : Tid) : Broker :=
  { b with mu := { b.mu with readers := b.mu.readers.erase t } }.goto t .idle

/-- One statement of the call of `t`. -/
def Broker.next (b : Broker) (t : Tid) : Option (Broker × List BrokerEvent) :=
  match b.pc t with
  | .idle => none
  | .subscribeLock ch => (b.lock t (.subscribeInsert ch)).map (·, [])
  | .subscribeInsert ch =>
    some ({ b with clients := insert ch b.clients }.goto t (.subscribeUnlock ch),
      [.subscribed ch])
  | .subscribeUnlock _ | .unsubscribeUnlock _ => some (b.unlock t, [])
  | .unsubscribeLock ch => (b.lock t (.unsubscribeDelete ch)).map (·, [])
  | .unsubscribeDelete ch =>
    if ch ∈ b.clients then
      some ({ b with clients := b.clients.erase ch }.goto t (.unsubscribeClose ch),
        [.unsubscribed ch])
    else some (b.goto t (.unsubscribeUnlock ch), [])
  | .unsubscribeClose ch =>
    if (b.channels ch).closed then some ({ b with panicked := some .closeOfClosedChannel }, [])
    else some ((b.setChannel ch { b.channels ch with closed := true }).goto t
      (.unsubscribeUnlock ch), [])
  | .publishRLock msg => (b.rLock t (.publishRange msg b.clients)).map (·, [.published msg])
  | .publishRange _ rest => if rest = ∅ then some (b.rUnlock t, []) else none

/-- `select { case ch <- msg: default: }` -/
def Broker.send (b : Broker) (ch : Chan) : Option (Broker × List BrokerEvent) :=
  match b.pc .tailer with
  | .publishRange msg rest =>
    let c := b.channels ch
    if ch ∉ rest then none
    else if c.closed then some ({ b with panicked := some .sendOnClosedChannel }, [])
    else
      let c' := if c.buffer.length < capacity then { c with buffer := c.buffer ++ [msg] } else c
      some ((b.setChannel ch c').goto .tailer (.publishRange msg (rest.erase ch)),
        [.offered ch msg c.buffer.length])
  | _ => none

/-- `msg, ok := <-ch`, when a message is there. -/
def Broker.receive (b : Broker) (ch : Chan) : Option (Broker × List BrokerEvent) :=
  match (b.channels ch).buffer with
  | [] => none
  | msg :: rest =>
    some (b.setChannel ch { b.channels ch with buffer := rest }, [.received ch msg])

def Broker.act (b : Broker) : BrokerAct → Option (Broker × List BrokerEvent)
  | .subscribe n =>
    if b.pc (.handler n) = .idle then
      some ({ b with made := b.made + 1 }.goto (.handler n) (.subscribeLock b.made), [])
    else none
  | .unsubscribe n ch =>
    if b.pc (.handler n) = .idle ∧ ch < b.made then
      some (b.goto (.handler n) (.unsubscribeLock ch), [])
    else none
  | .publish msg =>
    if b.pc .tailer = .idle then some (b.goto .tailer (.publishRLock msg), []) else none
  | .next t => b.next t
  | .send ch => b.send ch
  | .receive ch => b.receive ch

/-- The broker and what has happened so far. -/
abbrev BrokerRun := Broker × List BrokerEvent

/-- A panic ends the process. -/
def brokerStep (a : BrokerAct) (w : BrokerRun) : Option BrokerRun :=
  match w.1.panicked with
  | some _ => none
  | none => (w.1.act a).map fun r => (r.1, w.2 ++ r.2)

/-- `newBroker()`. -/
def newBroker (w : BrokerRun) : Prop :=
  w.1.mu = ⟨none, ∅⟩ ∧ w.1.clients = ∅ ∧ (∀ ch, w.1.channels ch = ⟨[], false⟩) ∧ w.1.made = 0 ∧
    (∀ t, w.1.pc t = .idle) ∧ w.1.panicked = none ∧ w.2 = []

/-! ## The lock -/

/-- Between `Lock` and `Unlock`. -/
def Pc.writes : Pc → Bool
  | .subscribeInsert _ | .subscribeUnlock _ | .unsubscribeDelete _ | .unsubscribeClose _
  | .unsubscribeUnlock _ => true
  | .idle | .subscribeLock _ | .unsubscribeLock _ | .publishRLock _ | .publishRange .. => false

/-- In a publish, the clients still to come. -/
def Pc.ranges? : Pc → Option (Finset Chan)
  | .publishRange _ rest => some rest
  | _ => none

/-- The channel that the call is about to list or to close. -/
def Pc.claims? : Pc → Option Chan
  | .subscribeLock ch | .subscribeInsert ch | .unsubscribeClose ch => some ch
  | _ => none

def Pc.publishes : Pc → Bool
  | .publishRLock _ | .publishRange .. => true
  | _ => false

/-- Made, open, and not among the clients. -/
def Unlisted (b : Broker) (ch : Chan) : Prop :=
  ch < b.made ∧ ch ∉ b.clients ∧ (b.channels ch).closed = false

/-- What holds of the broker while `t` is at `p`. -/
structure At (b : Broker) (t : Tid) (p : Pc) : Prop where
  writes : p.writes = true → b.mu.writer = some t
  ranges : ∀ rest, p.ranges? = some rest → t ∈ b.mu.readers ∧ rest ⊆ b.clients
  claims : ∀ ch, p.claims? = some ch → Unlisted b ch
  publishes : p.publishes = true → t = .tailer

/-- The invariant of the broker itself. -/
structure Orderly (b : Broker) : Prop where
  panicked : b.panicked = none
  places : ∀ t, At b t (b.pc t)
  exclusive : ∀ t, b.mu.writer = some t → b.mu.readers = ∅
  clients : ∀ ch ∈ b.clients, ch < b.made ∧ (b.channels ch).closed = false
  unmade : ∀ ch, b.made ≤ ch → (b.channels ch).closed = false
  apart : ∀ t t' ch, (b.pc t).claims? = some ch → (b.pc t').claims? = some ch → t = t'

section Invariant

variable {b b' : Broker} {t : Tid} {p : Pc}

/-- Whoever holds the lock is alone with it. -/
theorem Orderly.alone (h : Orderly b) (hw : (b.pc t).writes = true) {t' : Tid} (ht : t' ≠ t) :
    (b.pc t').writes = false ∧ (b.pc t').ranges? = none := by
  have hmine := (h.places t).writes hw
  constructor
  · cases hw' : (b.pc t').writes with
    | false => rfl
    | true =>
      have htheirs := (h.places t').writes hw'
      rw [hmine] at htheirs
      exact absurd (Option.some.inj htheirs).symm ht
  · cases hr : (b.pc t').ranges? with
    | none => rfl
    | some rest =>
      have hmem := ((h.places t').ranges rest hr).1
      rw [h.exclusive t hmine] at hmem
      cases hmem

/-- One goroutine moves on; what it changes concerns no other one. -/
theorem Orderly.move (h : Orderly b) (hpanicked : b'.panicked = none)
    (hpc : b'.pc = Function.update b.pc t p) (hat : At b' t p)
    (hothers : ∀ t', t' ≠ t → At b' t' (b.pc t'))
    (hexclusive : ∀ t', b'.mu.writer = some t' → b'.mu.readers = ∅)
    (hclients : ∀ ch ∈ b'.clients, ch < b'.made ∧ (b'.channels ch).closed = false)
    (hunmade : ∀ ch, b'.made ≤ ch → (b'.channels ch).closed = false)
    (hclaims : ∀ ch, p.claims? = some ch → ∀ t', (b.pc t').claims? = some ch → t' = t) :
    Orderly b' where
  panicked := hpanicked
  places t' := by
    rw [hpc]
    by_cases ht : t' = t
    · subst ht
      rwa [Function.update_self]
    · rw [Function.update_of_ne ht]
      exact hothers t' ht
  exclusive := hexclusive
  clients := hclients
  unmade := hunmade
  apart t₁ t₂ ch h₁ h₂ := by
    rw [hpc] at h₁ h₂
    by_cases ht₁ : t₁ = t
    · subst ht₁
      rw [Function.update_self] at h₁
      by_cases ht₂ : t₂ = t₁
      · exact ht₂.symm
      · rw [Function.update_of_ne ht₂] at h₂
        exact (hclaims ch h₁ t₂ h₂).symm
    · rw [Function.update_of_ne ht₁] at h₁
      by_cases ht₂ : t₂ = t
      · subst ht₂
        rw [Function.update_self] at h₂
        exact hclaims ch h₂ t₁ h₁
      · rw [Function.update_of_ne ht₂] at h₂
        exact h.apart t₁ t₂ ch h₁ h₂

/-- A move that changes nothing else. -/
theorem Orderly.goto (h : Orderly b) (hat : At b t p)
    (hclaims : ∀ ch, p.claims? = some ch → ∀ t', (b.pc t').claims? = some ch → t' = t) :
    Orderly (b.goto t p) :=
  h.move h.panicked rfl ⟨hat.writes, hat.ranges, hat.claims, hat.publishes⟩
    (fun t' _ => ⟨(h.places t').writes, (h.places t').ranges, (h.places t').claims,
      (h.places t').publishes⟩) h.exclusive h.clients h.unmade hclaims

theorem lock_some (h : b.lock t p = some b') : b.mu.writer = none ∧ b.mu.readers = ∅ ∧
    b' = { b with mu := { b.mu with writer := some t } }.goto t p := by
  unfold Broker.lock at h
  split at h
  · rename_i hfree
    exact ⟨hfree.1, hfree.2, (Option.some.inj h).symm⟩
  · cases h

theorem Orderly.lock (h : Orderly b) (hl : b.lock t p = some b') (hranges : p.ranges? = none)
    (hpublishes : p.publishes = false)
    (hclaims : ∀ ch, p.claims? = some ch → (b.pc t).claims? = some ch) : Orderly b' := by
  obtain ⟨hwriter, hreaders, rfl⟩ := lock_some hl
  refine h.move h.panicked rfl ⟨fun _ => rfl, ?_, fun ch hch => ?_, ?_⟩ (fun t' ht => ?_)
    (fun _ _ => hreaders) h.clients h.unmade fun ch hch t' ht => h.apart t' t ch ht (hclaims ch hch)
  · intro rest hrest
    rw [hranges] at hrest
    cases hrest
  · exact (h.places t).claims ch (hclaims ch hch)
  · intro hp
    rw [hpublishes] at hp
    cases hp
  · -- nobody else was between `Lock` and `Unlock`
    have hat := h.places t'
    refine ⟨fun hw => ?_, hat.ranges, hat.claims, hat.publishes⟩
    have := hat.writes hw
    rw [hwriter] at this
    cases this

theorem Orderly.unlock (h : Orderly b) (hw : (b.pc t).writes = true) : Orderly (b.unlock t) := by
  refine h.move h.panicked rfl ⟨nofun, nofun, nofun, nofun⟩ (fun t' ht => ?_)
    (fun t' ht => by cases ht) h.clients h.unmade nofun
  have hat := h.places t'
  refine ⟨fun hw' => ?_, hat.ranges, hat.claims, hat.publishes⟩
  rw [(h.alone hw ht).1] at hw'
  cases hw'

/-- A move under the lock. -/
theorem Orderly.write (h : Orderly b) (hw : (b.pc t).writes = true) (hmu : b'.mu = b.mu)
    (hpanicked : b'.panicked = none) (hpc : b'.pc = Function.update b.pc t p)
    (hp : p.ranges? = none ∧ p.publishes = false)
    (hclaimed : ∀ ch, p.claims? = some ch → Unlisted b' ch)
    (hkeeps : ∀ t' ch, t' ≠ t → (b.pc t').claims? = some ch → Unlisted b' ch)
    (hclients : ∀ ch ∈ b'.clients, ch < b'.made ∧ (b'.channels ch).closed = false)
    (hunmade : ∀ ch, b'.made ≤ ch → (b'.channels ch).closed = false)
    (hclaims : ∀ ch, p.claims? = some ch → ∀ t', (b.pc t').claims? = some ch → t' = t) :
    Orderly b' := by
  refine h.move hpanicked hpc ⟨fun _ => ?_, ?_, hclaimed, ?_⟩ (fun t' ht => ?_) ?_ hclients
    hunmade hclaims
  · rw [hmu]
    exact (h.places t).writes hw
  · intro rest hrest
    rw [hp.1] at hrest
    cases hrest
  · intro hpub
    rw [hp.2] at hpub
    cases hpub
  · obtain ⟨hwrites, hranges⟩ := h.alone hw ht
    refine ⟨fun hw' => ?_, fun rest hrest => ?_, fun ch => hkeeps t' ch ht,
      (h.places t').publishes⟩
    · rw [hwrites] at hw'
      cases hw'
    · rw [hranges] at hrest
      cases hrest
  · rw [hmu]
    exact h.exclusive

end Invariant

section Steps

variable {b b' : Broker} {es : List BrokerEvent}

theorem Orderly.next (h : Orderly b) {t : Tid} (hs : b.next t = some (b', es)) : Orderly b' := by
  have hat := h.places t
  unfold Broker.next at hs
  split at hs
  next => cases hs
  next ch hp =>
    obtain ⟨b₁, hl, hs⟩ := Option.map_eq_some_iff.mp hs
    cases hs
    exact h.lock hl rfl rfl fun c hc => by rw [hp]; exact hc
  next ch hp =>
    cases hs
    have hch := hat.claims ch (by rw [hp]; rfl)
    refine h.write (p := .subscribeUnlock ch) (by rw [hp]; rfl) rfl h.panicked rfl ⟨rfl, rfl⟩
      nofun (fun t' c ht hc => ?_) (fun c hc => ?_) h.unmade nofun
    · obtain ⟨hmade, hlisted, hopen⟩ := (h.places t').claims c hc
      refine ⟨hmade, fun hmem => ?_, hopen⟩
      rcases Finset.mem_insert.mp hmem with rfl | hmem
      · exact ht (h.apart t' t c hc (by rw [hp]; rfl))
      · exact hlisted hmem
    · rcases Finset.mem_insert.mp hc with rfl | hc
      · exact ⟨hch.1, hch.2.2⟩
      · exact h.clients c hc
  next ch hp =>
    cases hs
    exact h.unlock (by rw [hp]; rfl)
  next ch hp =>
    cases hs
    exact h.unlock (by rw [hp]; rfl)
  next ch hp =>
    obtain ⟨b₁, hl, hs⟩ := Option.map_eq_some_iff.mp hs
    cases hs
    exact h.lock hl rfl rfl nofun
  next ch hp =>
    have hw : (b.pc t).writes = true := by rw [hp]; rfl
    split at hs
    · rename_i hmem
      cases hs
      refine h.write (p := .unsubscribeClose ch) hw rfl h.panicked rfl ⟨rfl, rfl⟩
        (fun c hc => ?_) (fun t' c _ hc => ?_)
        (fun c hc => h.clients c (Finset.mem_of_mem_erase hc)) h.unmade fun c hc t' hc' => ?_
      · cases hc
        exact ⟨(h.clients ch hmem).1, Finset.notMem_erase ch b.clients, (h.clients ch hmem).2⟩
      · obtain ⟨hmade, hlisted, hopen⟩ := (h.places t').claims c hc
        exact ⟨hmade, fun hmem => hlisted (Finset.mem_of_mem_erase hmem), hopen⟩
      · cases hc
        exact absurd hmem ((h.places t').claims ch hc').2.1
    · cases hs
      exact h.write (p := .unsubscribeUnlock ch) hw rfl h.panicked rfl ⟨rfl, rfl⟩ nofun
        (fun t' c _ hc => (h.places t').claims c hc) h.clients h.unmade nofun
  next ch hp =>
    have hclaim : (b.pc t).claims? = some ch := by rw [hp]; rfl
    obtain ⟨hmade, hlisted, hopen⟩ := hat.claims ch hclaim
    rw [hopen] at hs
    cases hs
    -- whoever else is about to list or close a channel has another one
    refine h.write (p := .unsubscribeUnlock ch) (by rw [hp]; rfl) rfl h.panicked rfl ⟨rfl, rfl⟩
      nofun (fun t' c ht hc => ?_) (fun c hc => ?_) (fun c hc => ?_) nofun
    · obtain ⟨hmade', hlisted', hopen'⟩ := (h.places t').claims c hc
      refine ⟨hmade', hlisted', ?_⟩
      by_cases hcc : c = ch
      · subst hcc
        exact absurd (h.apart t' t c hc hclaim) ht
      · rwa [goto_channels, setChannel_of_ne _ _ _ hcc]
    · have hcc : c ≠ ch := by
        intro heq
        exact hlisted (heq ▸ hc)
      refine ⟨(h.clients c hc).1, ?_⟩
      rw [goto_channels, setChannel_of_ne _ _ _ hcc]
      exact (h.clients c hc).2
    · have hcc : c ≠ ch := by
        intro heq
        subst heq
        exact absurd hmade (Nat.not_lt.mpr hc)
      rw [goto_channels, setChannel_of_ne _ _ _ hcc]
      exact h.unmade c hc
  next msg hp =>
    obtain ⟨b₁, hl, hs⟩ := Option.map_eq_some_iff.mp hs
    cases hs
    unfold Broker.rLock at hl
    split at hl
    · rename_i hwriter
      cases hl
      refine h.move (p := .publishRange msg b.clients) h.panicked rfl ⟨nofun, ?_, nofun, ?_⟩
        (fun t' ht => ?_) (fun t' ht => ?_) h.clients h.unmade nofun
      · intro rest hrest
        cases hrest
        exact ⟨Finset.mem_insert_self .., Finset.Subset.refl _⟩
      · intro _
        exact hat.publishes (by rw [hp]; rfl)
      · have hat' := h.places t'
        refine ⟨hat'.writes, fun rest hrest => ?_, hat'.claims, hat'.publishes⟩
        obtain ⟨hmem, hrest⟩ := hat'.ranges rest hrest
        exact ⟨Finset.mem_insert_of_mem hmem, hrest⟩
      · change b.mu.writer = some t' at ht
        rw [hwriter] at ht
        cases ht
    · cases hl
  next msg rest hp =>
    split at hs
    · cases hs
      refine h.move (p := .idle) h.panicked rfl ⟨nofun, nofun, nofun, nofun⟩ (fun t' ht => ?_)
        (fun t' ht => ?_) h.clients h.unmade nofun
      · have hat' := h.places t'
        refine ⟨hat'.writes, fun rest hrest => ?_, hat'.claims, hat'.publishes⟩
        obtain ⟨hmem, hrest⟩ := hat'.ranges rest hrest
        exact ⟨Finset.mem_erase.mpr ⟨ht, hmem⟩, hrest⟩
      · change b.mu.readers.erase t = ∅
        rw [h.exclusive t' ht]
        rfl
    · cases hs

/-- A channel keeps its state when only its buffer changes. -/
theorem Orderly.setBuffer (h : Orderly b) (ch : Chan) (buffer : List Message) :
    Orderly (b.setChannel ch { b.channels ch with buffer }) := by
  have hclosed : ∀ c, ((b.setChannel ch { b.channels ch with buffer }).channels c).closed =
      (b.channels c).closed := by
    intro c
    by_cases hc : c = ch
    · subst hc
      rw [setChannel_self]
    · rw [setChannel_of_ne _ _ _ hc]
  refine ⟨h.panicked, fun t => ?_, h.exclusive, fun c hc => ?_, fun c hc => ?_, h.apart⟩
  · have hat := h.places t
    refine ⟨hat.writes, hat.ranges, fun c hc => ?_, hat.publishes⟩
    obtain ⟨hmade, hlisted, hopen⟩ := hat.claims c hc
    exact ⟨hmade, hlisted, (hclosed c).trans hopen⟩
  · exact ⟨(h.clients c hc).1, (hclosed c).trans (h.clients c hc).2⟩
  · exact (hclosed c).trans (h.unmade c hc)

theorem Broker.send_some {ch : Chan} (h : Orderly b) (hs : b.send ch = some (b', es)) :
    ∃ msg rest, b.pc .tailer = .publishRange msg rest ∧ ch ∈ rest ∧
      es = [.offered ch msg (b.channels ch).buffer.length] ∧
      b' = (b.setChannel ch { b.channels ch with
        buffer := if (b.channels ch).buffer.length < capacity then
          (b.channels ch).buffer ++ [msg] else (b.channels ch).buffer }).goto .tailer
            (.publishRange msg (rest.erase ch)) := by
  unfold Broker.send at hs
  split at hs
  next msg rest hp =>
    split at hs
    · cases hs
    · rename_i hmem
      have hmem := Decidable.not_not.mp hmem
      have hlisted := ((h.places .tailer).ranges rest (by rw [hp]; rfl)).2 hmem
      have hopen := (h.clients ch hlisted).2
      simp only [hopen, Bool.false_eq_true, if_false] at hs
      cases hs
      refine ⟨msg, rest, hp, hmem, rfl, ?_⟩
      split
      · simp only [hopen]
      · rfl
  next => cases hs

theorem Broker.receive_some {ch : Chan} (hs : b.receive ch = some (b', es)) :
    ∃ msg rest, (b.channels ch).buffer = msg :: rest ∧ es = [.received ch msg] ∧
      b' = b.setChannel ch { b.channels ch with buffer := rest } := by
  unfold Broker.receive at hs
  split at hs
  next => cases hs
  next msg rest hbuffer =>
    cases hs
    exact ⟨msg, rest, hbuffer, rfl, rfl⟩

theorem Orderly.act (h : Orderly b) {a : BrokerAct} (hs : b.act a = some (b', es)) :
    Orderly b' := by
  cases a with
  | subscribe n =>
    simp only [Broker.act] at hs
    split at hs
    · cases hs
      have hmade : ∀ ch, Unlisted b ch →
          Unlisted ({ b with made := b.made + 1 }.goto (.handler n) (.subscribeLock b.made)) ch :=
        fun ch hch => ⟨Nat.lt_succ_of_lt hch.1, hch.2⟩
      refine h.move (p := .subscribeLock b.made) h.panicked rfl ⟨nofun, nofun, fun ch hch => ?_,
        nofun⟩ (fun t' _ => ?_) h.exclusive (fun ch hch => ?_) (fun ch hch => ?_)
        fun ch hch t' hch' => ?_
      · cases hch
        refine ⟨Nat.lt_succ_self _, fun hmem => ?_, h.unmade _ (Nat.le_refl _)⟩
        exact Nat.lt_irrefl _ (h.clients _ hmem).1
      · have hat := h.places t'
        exact ⟨hat.writes, hat.ranges, fun ch hch => hmade ch (hat.claims ch hch), hat.publishes⟩
      · exact ⟨Nat.lt_succ_of_lt (h.clients ch hch).1, (h.clients ch hch).2⟩
      · exact h.unmade ch (Nat.le_of_succ_le hch)
      · cases hch
        exact absurd ((h.places t').claims _ hch').1 (Nat.lt_irrefl _)
    · cases hs
  | unsubscribe n ch =>
    simp only [Broker.act] at hs
    split at hs
    · cases hs
      exact h.goto ⟨nofun, nofun, nofun, nofun⟩ nofun
    · cases hs
  | publish msg =>
    simp only [Broker.act] at hs
    split at hs
    · cases hs
      exact h.goto ⟨nofun, nofun, nofun, fun _ => rfl⟩ nofun
    · cases hs
  | next t => exact h.next hs
  | send ch =>
    obtain ⟨msg, rest, hp, hmem, -, rfl⟩ := Broker.send_some h hs
    have h' := h.setBuffer ch (if (b.channels ch).buffer.length < capacity then
      (b.channels ch).buffer ++ [msg] else (b.channels ch).buffer)
    have hat := (h.places .tailer).ranges rest (by rw [hp]; rfl)
    refine h'.goto ⟨nofun, fun rest' hrest => ?_, nofun, fun _ => rfl⟩ nofun
    cases hrest
    exact ⟨hat.1, (Finset.erase_subset ..).trans hat.2⟩
  | receive ch =>
    obtain ⟨msg, rest, -, -, rfl⟩ := Broker.receive_some hs
    exact h.setBuffer ch rest

end Steps

theorem orderly_new {w : BrokerRun} (h : newBroker w) : Orderly w.1 := by
  obtain ⟨hmu, hclients, hchannels, hmade, hpc, hpanicked, -⟩ := h
  refine ⟨hpanicked, fun t => ?_, fun t ht => ?_, fun c hc => ?_, fun c _ => ?_,
    fun t t' c hc => ?_⟩
  · rw [hpc]
    exact ⟨nofun, nofun, nofun, nofun⟩
  · rw [hmu]
  · rw [hclients] at hc
    cases hc
  · rw [hchannels]
  · rw [hpc] at hc
    cases hc

end TradePulse.Gateway
