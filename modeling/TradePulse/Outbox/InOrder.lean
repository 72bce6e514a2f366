import TradePulse.Outbox.ExactlyOnce

/-! # The consumer's positions

When what a crash left pending is recovered before the next poll, events are
applied in the order of the trades: the consumer's view is at all times that of
the ledger after its first so many trades. -/
namespace TradePulse.Outbox
open TradePulse.Core TradePulse.Core.StreamLog TradePulse.Core.Runs
open Outbox.Ledger (fetch)

/-! ## A stretch of the stream read again -/

section Stretches

variable {δ : Type} {log : List (Envelope δ)}

theorem distinct_append_between {l d j : Nat} (hl : l ≤ d) :
    distinct (log.take d ++ between log l j) = distinct (log.take (max d j)) := by
  rcases Nat.le_total j d with hj | hj
  · rw [Nat.max_eq_left hj]
    refine firstsBy_append_known fun e he => List.mem_map_of_mem ?_
    have hmem : e ∈ log.take j := List.mem_of_mem_drop he
    rw [← Nat.min_eq_left hj, ← List.take_take] at hmem
    exact List.mem_of_mem_take hmem
  · have hknown : firstsBy Envelope.event_id (log.take d ++ between log l d) =
        firstsBy Envelope.event_id (log.take d) :=
      firstsBy_append_known fun e he => List.mem_map_of_mem (List.mem_of_mem_drop he)
    rw [Nat.max_eq_right hj, ← between_append log hl hj, ← List.append_assoc, distinct,
      firstsBy_append_congr hknown, ← between_zero, between_append log (Nat.zero_le d) hj,
      between_zero, distinct]

end Stretches

/-! ## Applied in order -/

/-- Up to `d` all entries have been handed out in their order, and what is pending
is what was read behind `l`. -/
structure OrderedTo {δ : Type} (l d : Nat) (g : ConsumerGroup (Envelope δ))
    (xs : List (Envelope δ)) : Prop where
  acked : l ≤ d
  behind : l ≤ g.next
  pending : ∀ id, g.pending id ≠ none ↔ l < id ∧ id ≤ g.next
  cursor : g.next ≤ g.log.length
  frontier : d ≤ g.log.length
  applied : distinct xs = distinct (g.log.take d)

def Ordered {δ : Type} (g : ConsumerGroup (Envelope δ)) (xs : List (Envelope δ)) : Prop :=
  ∃ l d, OrderedTo l d g xs

/-- What is pending is recovered before the next poll. -/
def RecoverFirst (w : World) : Act → Prop
  | .poll _ => ∀ g ∈ w.bus.groups (STREAM, GROUP), g.pel = []
  | _ => True

instance (w : World) : ∀ a : Act, Decidable (RecoverFirst w a)
  | .poll _ => inferInstanceAs (Decidable (∀ g ∈ w.bus.groups (STREAM, GROUP), g.pel = []))
  | .post_trade .. | .relay_outbox .. | .consume | .recover | .setid _ => .isTrue trivial

def Orderly (w : World) (a : Act) : Prop := Admitted w a ∧ RecoverFirst w a

instance (w : World) (a : Act) : Decidable (Orderly w a) := inferInstanceAs (Decidable (_ ∧ _))

section Steps

variable {δ : Type} {g : ConsumerGroup (Envelope δ)} {xs : List (Envelope δ)} {l d : Nat}

theorem OrderedTo.add (h : OrderedTo l d g xs) (e : Envelope δ) :
    OrderedTo l d (g.add e) xs := by
  have hlen : g.log.length ≤ (g.add e).log.length := by simp
  refine ⟨h.acked, h.behind, h.pending, h.cursor.trans hlen, h.frontier.trans hlen, ?_⟩
  rw [ConsumerGroup.log_add, List.take_append_of_le_length h.frontier]
  exact h.applied

theorem OrderedTo.addAll (h : OrderedTo l d g xs) (es : List (Envelope δ)) :
    OrderedTo l d (es.foldl .add g) xs := by
  induction es generalizing g with
  | nil => exact h
  | cons e es ih => exact ih (h.add e)

/-- With nothing pending, everything read has been handed out. -/
theorem OrderedTo.eq_next (h : OrderedTo l d g xs) (hnone : ∀ id, g.pending id = none) :
    l = g.next := by
  by_contra hne
  have hbehind := h.behind
  exact (h.pending g.next).mpr ⟨by omega, Nat.le_refl _⟩ (hnone _)

/-- More is handed out, from some place that was reached already. -/
theorem OrderedTo.handed (h : OrderedTo l d g xs) {i : Nat} (hi : i ≤ d) (j : Nat) :
    distinct (xs ++ between g.log i j) = distinct (g.log.take (max d j)) := by
  rw [← distinct_append_between hi]
  exact firstsBy_append_congr h.applied _

theorem OrderedTo.takeNew (h : OrderedTo l d g xs) (hnone : l = g.next) (n : Nat) :
    Ordered (g.takeNew n) (xs ++ (g.unread n).map Prod.snd) := by
  have hcursor : g.next + (g.unread n).length ≤ g.log.length := by
    have hlen : (g.unread n).length ≤ (after g.log g.next).length := List.length_take_le' ..
    have hcursor := h.cursor
    rw [length_after] at hlen
    omega
  refine ⟨(g.takeNew n).next, max d (g.next + (g.unread n).length), ?_, Nat.le_refl _, ?_, ?_, ?_, ?_⟩
  · rw [ConsumerGroup.next_takeNew]
    exact Nat.le_max_right ..
  · intro id
    have hold : g.pending id = none := by
      by_contra hne
      have hid := (h.pending id).mp hne
      omega
    rw [ConsumerGroup.pending_takeNew, hold, ite_self]
    simp
  · rw [ConsumerGroup.log_takeNew, ConsumerGroup.next_takeNew]
    exact hcursor
  · rw [ConsumerGroup.log_takeNew]
    exact max_le h.frontier hcursor
  · rw [ConsumerGroup.log_takeNew, ConsumerGroup.map_snd_unread]
    exact h.handed (hnone ▸ h.acked) _

theorem OrderedTo.readgroup (h : OrderedTo l d g xs) (hnone : l = g.next) (n : Nat) :
    Ordered (g.readgroup n) xs := by
  have hlen : (g.unread n).length ≤ (after g.log g.next).length := List.length_take_le' ..
  have hcursor := h.cursor
  rw [length_after] at hlen
  refine ⟨l, d, h.acked, ?_, fun id => ?_, ?_, h.frontier, h.applied⟩
  · rw [ConsumerGroup.next_readgroup]
    exact h.behind.trans (Nat.le_add_right ..)
  · have hold : g.pending id = none := by
      by_contra hne
      have hid := (h.pending id).mp hne
      omega
    simp only [ConsumerGroup.readgroup, ConsumerGroup.deliver, ConsumerGroup.unread_ids,
      List.mem_range'_1, hold, hnone]
    split <;> simp <;> omega
  · rw [ConsumerGroup.next_readgroup, ConsumerGroup.log_readgroup]
    omega

theorem OrderedTo.recover (h : OrderedTo l d g xs) :
    Ordered (g.ackAll (g.pendingEntries.map Prod.fst))
      (xs ++ g.pendingEntries.map Prod.snd) := by
  refine ⟨g.next, max d g.next, Nat.le_max_right .., ?_, fun id => ?_, ?_, ?_, ?_⟩
  · rw [ConsumerGroup.next_ackAll]
  · rw [ConsumerGroup.next_ackAll, ConsumerGroup.pending_ackAll]
    have hnone : (if id ∈ g.pendingEntries.map Prod.fst then none else g.pending id) = none := by
      split
      · rfl
      · rename_i hid
        by_contra hne
        obtain ⟨hlt, hle⟩ := (h.pending id).mp hne
        have hcursor := h.cursor
        refine hid (List.mem_map.mpr ⟨(id, g.log[id - 1]), List.mem_filter.mpr ⟨?_, ?_⟩, rfl⟩)
        · exact mem_after.mpr ⟨by omega, List.getElem?_eq_getElem (by omega)⟩
        · exact Option.isSome_iff_ne_none.mpr hne
    rw [hnone]
    simp
  · rw [ConsumerGroup.next_ackAll, ConsumerGroup.log_ackAll]
    exact h.cursor
  · rw [ConsumerGroup.log_ackAll]
    exact max_le h.frontier h.cursor
  · rw [ConsumerGroup.log_ackAll, ConsumerGroup.map_snd_pendingEntries h.pending]
    exact h.handed h.acked _

/-- A replay from behind which everything has been applied. -/
theorem OrderedTo.recreate (h : OrderedTo l d g xs) {start : Nat} (hstart : start ≤ g.log.length)
    (hseen : ∀ e ∈ g.log.take start, e.event_id ∈ xs.map (·.event_id)) :
    Ordered (g.recreate start) xs := by
  refine ⟨start, max d start, Nat.le_max_right .., Nat.le_refl _, fun id => ?_, hstart,
    max_le h.frontier hstart, ?_⟩
  · have hnone : (g.recreate start).pending id = none := rfl
    rw [hnone, ConsumerGroup.next_recreate]
    simp
  · rw [ConsumerGroup.log_recreate, h.applied]
    rcases Nat.le_total start d with hd | hd
    · rw [Nat.max_eq_left hd]
    · have hsplit : g.log.take start = g.log.take d ++ between g.log d start := by
        rw [← between_zero, ← between_zero, between_append g.log (Nat.zero_le d) hd]
      rw [Nat.max_eq_right hd, hsplit]
      refine (firstsBy_append_known fun e he => ?_).symm
      have hmem := hseen e (List.mem_of_mem_drop he)
      rwa [← mem_firstsBy_keys, ← distinct, h.applied, distinct, mem_firstsBy_keys] at hmem

end Steps

theorem Ordered.after {w : World} {c : RiskConsumer} {g : ConsumerGroup (Envelope LedgerData)}
    {xs : List (Envelope LedgerData)} (h : Ordered g xs) (hc : w.consumer = some c)
    (href : Refines w.bus STREAM GROUP g) (hfollows : Follows c xs) {a : Act}
    (ha : Orderly w a) : a.After Ordered g xs := by
  obtain ⟨l, d, h⟩ := h
  cases a with
  | post_trade | relay_outbox | consume => trivial
  | poll crash_before_ack =>
    have hnone : l = g.next := by
      obtain ⟨last, hgroup, -⟩ := href.cursor
      have hpel : g.pendingEntries = [] := ha.2 _ hgroup
      by_contra hne
      have hbehind := h.behind
      have hcursor := h.cursor
      have hmap := congrArg List.length (ConsumerGroup.map_snd_pendingEntries h.pending)
      rw [hpel, List.map_nil, List.length_nil, between, List.length_drop, List.length_take] at hmap
      omega
    cases crash_before_ack with
    | false => exact h.takeNew hnone 10
    | true => exact h.readgroup hnone 10
  | recover => exact h.recover
  | setid start =>
    obtain ⟨⟨-, hstart, hseen⟩, -⟩ := ha
    rw [href.stream_len] at hstart
    refine h.recreate hstart fun e he => ?_
    rw [← map_snd_after_zero g.log, ← List.map_take, ← href.entries] at he
    obtain ⟨entry, hentry, rfl⟩ := List.mem_map.mp he
    exact hfollows.mem_seen.mp (hseen c hc entry hentry)

theorem ordered_of_reach {w : World} (h : Reach step Orderly World.start w) :
    Consumes Ordered w := by
  refine h.invariant_under (fun _ h => wired_of_reach (fun _ _ h => h.1.1) h) ?_ ?_
  · rintro w rfl c hc
    cases hc
  · intro w a w' hw _ hI ha hstep
    obtain ⟨-, log, hlog, -⟩ := hw
    refine hI.step hlog ⟨0, 0, ?_⟩ (fun _ _ e ⟨l, d, h⟩ => ⟨l, d, h.add e⟩)
      (fun _ _ _ hc href hfollows hP => hP.after hc href hfollows ha) hstep
    exact ⟨Nat.le_refl _, Nat.le_refl _, fun _ => ⟨fun hne => absurd rfl hne, fun hid =>
      absurd hid.1 (Nat.not_lt.mpr hid.2)⟩,
      Nat.zero_le _, Nat.zero_le _, rfl⟩

/-- The events on the stream are, each once, the first ones of the outbox. -/
theorem Relayed.front {δ : Type} {loads : Envelope LedgerData → Envelope δ}
    {rows : List OutboxRow} {log : List (Envelope δ)} (h : Relayed loads rows log) (d : Nat) :
    distinct (log.take d) <+: payloads loads rows := by
  obtain ⟨done, todo, k, rfl, h⟩ := h
  have hfirst : distinct log <+: payloads loads (done ++ todo) := h.first ▸ List.take_prefix ..
  exact (prefix_firstsBy (List.take_prefix d log)).trans hfirst

/-- **The view is the ledger's, some trades ago.** The consumer's positions are
those that the first trades leave, as many as it has applied; with nothing
unsent, unread or pending they are the ledger's own. -/
theorem view_of_first_trades {w : World} (h : Reach step Orderly World.start w)
    {c : RiskConsumer} (hc : w.consumer = some c) :
    (∀ key, fetch key c.position_view =
        let trades := w.ledger.db.events.take c.applied
        if key ∈ trades.map LedgerData.key then some (holding trades key) else none) ∧
      (Quiet w → ∀ key, fetch key c.position_view = fetch key w.ledger.db.positions) := by
  have hadmitted : Reach step Admitted World.start w := h.mono (fun _ h => h) fun _ _ h => h.1
  obtain ⟨⟨-, hbooks⟩, log, hlog, hrelayed⟩ := wired_of_reach (fun _ _ h => h.1) hadmitted
  obtain ⟨g, xs, href, hfollows, l, d, hordered⟩ := ordered_of_reach h c hc
  have hglog : g.log = log := after_zero_inj (href.entries.symm.trans hlog)
  have hfront : distinct xs <+: payloads id w.ledger.db.outbox_events := by
    rw [hordered.applied, hglog]
    exact hrelayed.front d
  have htrades : (distinct xs).map (·.data) = w.ledger.db.events.take c.applied := by
    have hdata := List.prefix_iff_eq_take.mp (hfront.map Envelope.data)
    rw [List.length_map, ← hfollows.applied, payloads, List.map_map] at hdata
    exact hdata
  have hrunning : ∀ before e later, w.ledger.db.events.take c.applied = before ++ e :: later →
      e.position_after = holding (before ++ [e]) e.key := fun before e later heq =>
    hbooks.running before e (later ++ w.ledger.db.events.drop c.applied) (by
      rw [← List.cons_append, ← List.append_assoc, ← heq, List.take_append_drop])
  have hview : ∀ key, fetch key c.position_view =
      let trades := w.ledger.db.events.take c.applied
      if key ∈ trades.map LedgerData.key then some (holding trades key) else none := by
    intro key
    rw [hfollows.view, ← lastOf_position_after hrunning, ← htrades, List.map_map]
    rfl
  refine ⟨hview, fun hq key => ?_⟩
  rw [hview, applied_of_quiet hadmitted hc hq, Ledger.je_count, ← hbooks.length_events, List.take_length,
    hbooks.positions]

theorem view_of_scenario : ∃ w : World, ∃ c, w.consumer = some c ∧ Quiet w ∧
    ∀ key, fetch key c.position_view = fetch key w.ledger.db.positions := by
  obtain ⟨w, hreach, hw⟩ := Reach.exists_of_run step Orderly World.start scenario
    (fun w : World => w.consumer.isSome && decide (Quiet w)) (s := ⟨.new, .new, none⟩) rfl
    (by decide +kernel)
  obtain ⟨hc, hq⟩ := Bool.and_eq_true_iff.mp hw
  obtain ⟨c, hc⟩ := Option.isSome_iff_exists.mp hc
  have hquiet := of_decide_eq_true hq
  exact ⟨w, c, hc, hquiet, (view_of_first_trades hreach hc).2 hquiet⟩

end TradePulse.Outbox
