import TradePulse.Outbox.InOrder

/-! # The system comes to rest

From wherever a run has come to, the relay followed by a recovery and enough
polls leaves nothing unsent, unread or pending: no committed trade is lost. -/
namespace TradePulse.Outbox
open TradePulse.Core TradePulse.Core.StreamLog TradePulse.Core.Runs

/-! ## The relay to its end -/

section Relay

/-- The ids that are marked. -/
def marks (effects : List Effect) : List String :=
  effects.filterMap fun
    | .xadd _ => none
    | .mark_sent event_id => some event_id

theorem marked_eq (effects : List Effect) (rows : List OutboxRow) :
    marked effects rows = rows.map fun r =>
      if r.event_id ∈ marks effects then { r with sent := true } else r := by
  induction effects generalizing rows with
  | nil => simp [marked, marks]
  | cons e effects ih =>
    cases e with
    | xadd payload => exact ih rows
    | mark_sent event_id =>
      have hcons : marks (.mark_sent event_id :: effects) = event_id :: marks effects := rfl
      have hstep : marked (.mark_sent event_id :: effects) rows =
          marked effects (Ledger.markSent event_id rows) := rfl
      rw [hstep, ih, Ledger.markSent, List.map_map, hcons]
      refine List.map_congr_left fun r _ => ?_
      rw [Function.comp_apply]
      by_cases hr : r.event_id = event_id
      · by_cases hmem : event_id ∈ marks effects <;> simp [hr, hmem]
      · simp [hr]

theorem marks_rows (inject_dup : Bool) (rows : List (String × Envelope LedgerData)) :
    marks (rows.flatMap (rowEffects inject_dup)) = rows.map Prod.fst := by
  induction rows with
  | nil => rfl
  | cons row rows ih =>
    rw [List.flatMap_cons, marks, List.filterMap_append, ← marks, ← marks, ih, List.map_cons]
    cases inject_dup <;> rfl

theorem published_rows (rows : List (String × Envelope LedgerData)) :
    published (rows.flatMap (rowEffects false)) = rows.map Prod.snd := by
  induction rows with
  | nil => rfl
  | cons row rows ih =>
    rw [List.flatMap_cons, published_append, ih, List.map_cons]
    rfl

/-- The whole relay leaves nothing unsent. -/
theorem unsent_relayTo {l : Ledger} {b : Bus} {inject_dup : Bool} {n : Nat}
    (hn : (l.unsent_outbox.flatMap (rowEffects inject_dup)).length ≤ n) :
    (relayTo id STREAM inject_dup n l b).1.unsent_outbox = [] := by
  have hrows := (foldl_effects id STREAM
    ((l.unsent_outbox.flatMap (rowEffects inject_dup)).take n) l b).1
  rw [List.take_of_length_le hn, marked_eq, marks_rows] at hrows
  rw [Ledger.unsent_outbox, relayTo, List.take_of_length_le hn, hrows, List.map_eq_nil_iff,
    List.filter_eq_nil_iff]
  intro r hr
  obtain ⟨r', hr', rfl⟩ := List.mem_map.mp hr
  split
  · exact Bool.false_ne_true
  · rename_i hmem
    intro hsent
    refine hmem (List.mem_map.mpr ⟨(r'.event_id, r'.payload), ?_, rfl⟩)
    exact List.mem_map_of_mem (List.mem_filter.mpr ⟨hr', hsent⟩)

end Relay

/-! ## Recovery and polls -/

section Polls

variable {w : World} {c : RiskConsumer} {g : ConsumerGroup (Envelope LedgerData)}

/-- What the steps that drain the system leave alone. -/
structure Draining (w w' : World) : Prop where
  ledger : w'.ledger = w.ledger
  consumer : w'.consumer.isSome

/-- A recovery leaves nothing pending. -/
theorem run_recover (hc : w.consumer = some c) (href : Refines w.bus STREAM GROUP g) :
    ∃ w' g', run step Admitted [.recover] w = some w' ∧ Draining w w' ∧
      Refines w'.bus STREAM GROUP g' ∧ g'.log = g.log ∧ ∀ id, g'.pending id = none := by
  obtain ⟨b', hrecover, href', -⟩ := RiskConsumer.recover_ok href c
  have hstep : step .recover w = some { w with
      bus := b', consumer := some (g.pendingEntries.foldl (fun c e => c.note e.2) c) } := by
    simp only [step, hc, bind, Option.bind, hrecover]
    rfl
  refine ⟨{ w with
      bus := b', consumer := some (g.pendingEntries.foldl (fun c e => c.note e.2) c) }, _, ?_,
    ⟨rfl, rfl⟩, href', ConsumerGroup.log_ackAll .., fun id => ?_⟩
  · rw [run, if_pos ⟨trivial, trivial⟩, hstep]
    rfl
  · rw [ConsumerGroup.pending_ackAll]
    split
    · rfl
    · rename_i hid
      cases hp : g.pending id with
      | none => rfl
      | some t =>
        obtain ⟨⟨hpos, hle⟩, -⟩ := href.sane id t hp
        refine absurd (List.mem_map.mpr ⟨(id, g.log[id - 1]), List.mem_filter.mpr ⟨?_, ?_⟩, rfl⟩) hid
        · exact mem_after.mpr ⟨hpos, List.getElem?_eq_getElem (by omega)⟩
        · rw [hp]
          rfl

/-- Polls read on to the end of the stream. -/
theorem run_polls (hc : w.consumer = some c) (href : Refines w.bus STREAM GROUP g)
    (hnone : ∀ id, g.pending id = none) {m : Nat} (hm : g.log.length ≤ g.next + m) :
    ∃ w' g', run step Admitted (List.replicate m (.poll false)) w = some w' ∧ Draining w w' ∧
      Refines w'.bus STREAM GROUP g' ∧ g'.log.length ≤ g'.next ∧ ∀ id, g'.pending id = none := by
  induction m generalizing w c g with
  | zero => exact ⟨w, g, rfl, ⟨rfl, by rw [hc]; rfl⟩, href, hm, hnone⟩
  | succ m ih =>
    obtain ⟨b', hpoll, href', -⟩ := RiskConsumer.poll_ok href c
    have hstep : step (.poll false) w = some { w with
        bus := b', consumer := some ((g.unread 10).foldl (fun c e => c.note e.2) c) } := by
      simp only [step, hc, bind, Option.bind, hpoll]
      rfl
    have hnone' : ∀ id, (g.takeNew 10).pending id = none := fun id => by
      rw [ConsumerGroup.pending_takeNew, hnone, ite_self]
    have hread : (g.unread 10).length = min 10 (g.log.length - g.next) := by
      rw [ConsumerGroup.unread, List.length_take, length_after]
    obtain ⟨w', g', hrun, hdrain, href'', hlen, hnone''⟩ :=
      ih (w := { w with
        bus := b', consumer := some ((g.unread 10).foldl (fun c e => c.note e.2) c) }) rfl href'
        hnone' (by rw [ConsumerGroup.log_takeNew, ConsumerGroup.next_takeNew]; omega)
    refine ⟨w', g', ?_, ⟨hdrain.ledger, hdrain.consumer⟩, href'', hlen, hnone''⟩
    rw [List.replicate_succ, run, if_pos ⟨trivial, trivial⟩, hstep]
    exact hrun

end Polls

/-- The calls that drain the system. -/
def drain (n m : Nat) : List Act :=
  .relay_outbox false n :: .recover :: List.replicate m (.poll false)

/-- **Nothing is lost.** From any state that a run comes to, the relay to its
end, a recovery and enough polls apply every committed trade exactly once. -/
theorem outbox_drained {w : World} (h : Reach step Admitted World.start w) {c : RiskConsumer}
    (hc : w.consumer = some c) {n m : Nat}
    (hn : (w.ledger.unsent_outbox.flatMap (rowEffects false)).length ≤ n)
    (hm : w.bus.stream_len STREAM + w.ledger.unsent_outbox.length ≤ m) :
    ∃ w' c', run step Admitted (drain n m) w = some w' ∧ w'.consumer = some c' ∧ Quiet w' ∧
      w'.ledger.je_count = w.ledger.je_count ∧ c'.applied = w.ledger.je_count := by
  obtain ⟨g, xs, href, -, hcovers⟩ := covers_of_reach h c hc
  let w₁ : World := { w with
    ledger := (relayTo id STREAM false n w.ledger w.bus).1
    bus := (relayTo id STREAM false n w.ledger w.bus).2 }
  have hrelay : run step Admitted [.relay_outbox false n] w = some w₁ := by
    rw [run, if_pos ⟨trivial, trivial⟩]
    rfl
  have hunsent : w₁.ledger.unsent_outbox = [] := unsent_relayTo hn
  obtain ⟨-, hentries, -, hbus⟩ := foldl_effects id STREAM
    ((w.ledger.unsent_outbox.flatMap (rowEffects false)).take n) w.ledger w.bus
  have hcount : w₁.ledger.je_count = w.ledger.je_count := congrArg List.length hentries
  rw [List.take_of_length_le hn, published_rows, List.map_id] at hbus
  have hbus₁ : w₁.bus =
      (w.ledger.unsent_outbox.map Prod.snd).foldl (fun b e => (b.xadd STREAM e).2) w.bus := by
    rw [← hbus]
    simp only [w₁, relayTo, List.take_of_length_le hn]
  have href₁ : Refines w₁.bus STREAM GROUP ((w.ledger.unsent_outbox.map Prod.snd).foldl .add g) :=
    hbus₁ ▸ refines_xadds href _
  obtain ⟨w₂, g₂, hrecover, hdrain₂, href₂, hlog₂, hnone₂⟩ := run_recover (show w₁.consumer = some c from hc) href₁
  obtain ⟨c₂, hc₂⟩ := Option.isSome_iff_exists.mp hdrain₂.consumer
  have hlen₂ : g₂.log.length ≤ g₂.next + m := by
    have hlen := ConsumerGroup.log_addAll g (w.ledger.unsent_outbox.map Prod.snd)
    rw [href.stream_len] at hm
    rw [hlog₂, hlen, List.length_append, List.length_map]
    omega
  obtain ⟨w₃, g₃, hpolls, hdrain₃, href₃, hlen₃, hnone₃⟩ := run_polls hc₂ href₂ hnone₂ hlen₂
  obtain ⟨c₃, hc₃⟩ := Option.isSome_iff_exists.mp hdrain₃.consumer
  have hrun : run step Admitted (drain n m) w = some w₃ := by
    rw [drain, run_cons, hrelay, Option.bind_some, run_cons, hrecover, Option.bind_some, hpolls]
  have hquiet : Quiet w₃ := by
    refine ⟨by rw [hdrain₃.ledger, hdrain₂.ledger]; exact hunsent, fun grp hgrp => ?_⟩
    obtain ⟨last, hgroup, hlast⟩ := href₃.cursor
    cases hgroup.symm.trans hgrp
    rw [href₃.stream_len]
    exact ⟨ConsumerGroup.pendingEntries_eq_nil hnone₃, by dsimp only; omega⟩
  have hcount₃ : w₃.ledger.je_count = w.ledger.je_count := by
    rw [hdrain₃.ledger, hdrain₂.ledger, hcount]
  refine ⟨w₃, c₃, hrun, hc₃, hquiet, hcount₃, ?_⟩
  rw [← hcount₃]
  exact applied_of_quiet (Reach.run _ h hrun) hc₃ hquiet

theorem drained_after_crash : ∃ (w w' : World) (c' : RiskConsumer),
    run step Admitted (drain 4 4) w = some w' ∧ w'.consumer = some c' ∧ c'.applied = 2 := by
  obtain ⟨w, hreach, hw⟩ := Reach.exists_of_run step Admitted World.start
    [.consume, .post_trade (buy "r1") none (draws "1"), .relay_outbox false 1, .poll true,
      .post_trade (buy "r2") (some .after_commit_before_publish) (draws "2")]
    (fun w : World => w.consumer.isSome && decide (
      (w.ledger.unsent_outbox.flatMap (rowEffects false)).length ≤ 4 ∧
      w.bus.stream_len STREAM + w.ledger.unsent_outbox.length ≤ 4 ∧ w.ledger.je_count = 2))
    (s := ⟨.new, .new, none⟩) rfl (by decide +kernel)
  obtain ⟨hc, hw⟩ := Bool.and_eq_true_iff.mp hw
  obtain ⟨c, hc⟩ := Option.isSome_iff_exists.mp hc
  obtain ⟨hn, hm, htwo⟩ := of_decide_eq_true hw
  obtain ⟨w', c', hrun, hc', -, -, happlied⟩ := outbox_drained hreach hc hn hm
  exact ⟨w, w', c', hrun, hc', happlied.trans htwo⟩

end TradePulse.Outbox
