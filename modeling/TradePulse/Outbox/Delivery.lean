import TradePulse.Outbox.Books
import TradePulse.Outbox.GroupRefinement

/-! # From the outbox to the bus

Rows are published and marked in their order, so that the events on the stream,
each at its first occurrence, are the first rows of the outbox, whatever the
relay publishes twice and wherever it dies. -/
namespace TradePulse.Outbox
open TradePulse.Core TradePulse.Core.StreamLog

/-- The first of each event. -/
def distinct {δ : Type} (xs : List (Envelope δ)) : List (Envelope δ) :=
  firstsBy Envelope.event_id xs

section Relayed

variable {δ : Type} (loads : Envelope LedgerData → Envelope δ)

def payloads (rows : List OutboxRow) : List (Envelope δ) := rows.map fun r => loads r.payload

/-- The rows are sent up to some place, and the events of the first `k` of them
are on the stream, or of the first one that is not sent too. -/
structure RelayedTo (done todo : List OutboxRow) (k : Nat) (log : List (Envelope δ)) : Prop where
  sent : ∀ r ∈ done, r.sent = true
  unsent : ∀ r ∈ todo, r.sent = false
  length : done.length ≤ k
  first : distinct log = (payloads loads (done ++ todo)).take k

def Relayed (rows : List OutboxRow) (log : List (Envelope δ)) : Prop :=
  ∃ done todo k, rows = done ++ todo ∧ RelayedTo loads done todo k log

variable {loads}

/-- Rows whose events carry their ids, which are distinct. -/
structure Keyed (loads : Envelope LedgerData → Envelope δ) (rows : List OutboxRow) : Prop where
  ids : ∀ r ∈ rows, (loads r.payload).event_id = r.event_id
  nodup : (rows.map (·.event_id)).Nodup

theorem Keyed.ids_payloads {rows : List OutboxRow} (h : Keyed loads rows) :
    (payloads loads rows).map Envelope.event_id = rows.map (·.event_id) := by
  rw [payloads, List.map_map]
  exact List.map_congr_left h.ids

theorem Keyed.markSent {rows : List OutboxRow} (h : Keyed loads rows) (event_id : String) :
    Keyed loads (Ledger.markSent event_id rows) := by
  constructor
  · intro r hr
    obtain ⟨r', hr', rfl⟩ := List.mem_map.mp hr
    split
    · exact h.ids r' hr'
    · exact h.ids r' hr'
  · rw [Ledger.markSent, List.map_map]
    have hkeep : (fun r : OutboxRow => r.event_id) ∘ (fun row : OutboxRow =>
        if row.event_id = event_id then { row with sent := true } else row) =
        fun r => r.event_id := by
      funext r
      rw [Function.comp_apply]
      split <;> rfl
    rw [hkeep]
    exact h.nodup

theorem Relayed.nil : Relayed loads [] ([] : List (Envelope δ)) :=
  ⟨[], [], 0, rfl, (fun _ h => absurd h List.not_mem_nil), (fun _ h => absurd h List.not_mem_nil),
    Nat.le_refl _, rfl⟩

/-- A new row comes last. -/
theorem Relayed.insert {rows : List OutboxRow} {log : List (Envelope δ)} (h : Relayed loads rows log)
    {row : OutboxRow} (hrow : row.sent = false) : Relayed loads (rows ++ [row]) log := by
  obtain ⟨done, todo, k, rfl, h⟩ := h
  have hall : ∀ r ∈ todo ++ [row], r.sent = false := fun r hr =>
    (List.mem_append.mp hr).elim (h.unsent r) fun hr => List.mem_singleton.mp hr ▸ hrow
  rcases Nat.le_total k (done ++ todo).length with hk | hk
  · refine ⟨done, todo ++ [row], k, List.append_assoc .., h.sent, hall, h.length, ?_⟩
    rw [← List.append_assoc, payloads, List.map_append, List.take_append_of_le_length, h.first,
      payloads]
    rwa [List.length_map]
  · refine ⟨done, todo ++ [row], (done ++ todo).length, List.append_assoc .., h.sent, hall,
      by simp, ?_⟩
    rw [← List.append_assoc, payloads, List.map_append, List.take_append_of_le_length, h.first,
      payloads, List.take_of_length_le (by rwa [List.length_map]), List.take_of_length_le]
    · rw [List.length_map]
    · rw [List.length_map]

/-- The event of the next row is published, perhaps again. -/
theorem RelayedTo.publish {done todo : List OutboxRow} {r : OutboxRow} {k : Nat}
    {log : List (Envelope δ)} (hkeyed : Keyed loads (done ++ r :: todo))
    (h : RelayedTo loads done (r :: todo) k log) :
    RelayedTo loads done (r :: todo) (max k (done.length + 1)) (log ++ [loads r.payload]) := by
  refine ⟨h.sent, h.unsent, h.length.trans (Nat.le_max_left ..), ?_⟩
  have hids := hkeyed.ids_payloads
  have hget : (payloads loads (done ++ r :: todo))[done.length]? = some (loads r.payload) := by
    simp [payloads]
  have hkeys : ∀ e : Envelope δ, e.event_id ∈ log.map Envelope.event_id ↔
      e.event_id ∈ ((payloads loads (done ++ r :: todo)).take k).map Envelope.event_id := by
    intro e
    rw [← h.first]
    exact mem_firstsBy_keys.symm
  rcases Nat.lt_or_ge done.length k with hk | hk
  · rw [Nat.max_eq_left hk, distinct, firstsBy_snoc_known, ← distinct, h.first]
    refine (hkeys _).mpr (List.mem_map_of_mem ?_)
    obtain ⟨hlt, hval⟩ := List.getElem?_eq_some_iff.mp hget
    exact List.mem_take_iff_getElem.mpr ⟨done.length, lt_min hk hlt, hval⟩
  · have hlen : k = done.length := Nat.le_antisymm hk h.length
    subst hlen
    rw [Nat.max_eq_right (Nat.le_succ _), distinct, firstsBy_snoc_new, ← distinct, h.first,
      List.take_add_one, hget, Option.toList_some]
    intro hmem
    have hnodup := hids ▸ hkeyed.nodup
    have hsplit : payloads loads (done ++ r :: todo) =
        payloads loads done ++ loads r.payload :: payloads loads todo := by simp [payloads]
    have hdone : (payloads loads (done ++ r :: todo)).take done.length = payloads loads done := by
      rw [hsplit, List.take_left' (by simp [payloads])]
    rw [hkeys, hdone] at hmem
    rw [hsplit, List.map_append, List.map_cons] at hnodup
    exact (List.nodup_append.mp hnodup).2.2 _ hmem _ List.mem_cons_self rfl

/-- And the row is marked. -/
theorem RelayedTo.mark {done todo : List OutboxRow} {r : OutboxRow} {k : Nat}
    {log : List (Envelope δ)} (hkeyed : Keyed loads (done ++ r :: todo))
    (h : RelayedTo loads done (r :: todo) k log) (hk : done.length < k) :
    Ledger.markSent r.event_id (done ++ r :: todo) =
        (done ++ [{ r with sent := true }]) ++ todo ∧
      RelayedTo loads (done ++ [{ r with sent := true }]) todo k log := by
  have hnodup := hkeyed.nodup
  rw [List.map_append, List.map_cons] at hnodup
  obtain ⟨-, hrest, hapart⟩ := List.nodup_append.mp hnodup
  have hdone : r.event_id ∉ done.map (·.event_id) := fun hmem =>
    hapart _ hmem _ List.mem_cons_self rfl
  have htodo : r.event_id ∉ todo.map (·.event_id) := (List.nodup_cons.mp hrest).1
  have hmark : Ledger.markSent r.event_id (done ++ r :: todo) =
      (done ++ [{ r with sent := true }]) ++ todo := by
    rw [Ledger.markSent, List.map_append, List.map_cons, if_pos rfl, update_of_not_mem hdone,
      update_of_not_mem htodo, List.append_assoc, List.singleton_append]
  refine ⟨hmark, ?_, fun x hx => h.unsent x (List.mem_cons_of_mem _ hx), ?_, ?_⟩
  · intro x hx
    rcases List.mem_append.mp hx with hx | hx
    · exact h.sent x hx
    · rw [List.mem_singleton.mp hx]
  · rw [List.length_append, List.length_singleton]
    exact hk
  · rw [h.first]
    simp [payloads]

/-! ## The effects of the relay -/

/-- What the effects add to the stream, and what they do to the rows. -/
def published (effects : List Effect) : List (Envelope LedgerData) :=
  effects.filterMap fun
    | .xadd payload => some payload
    | .mark_sent _ => none

def marked (effects : List Effect) (rows : List OutboxRow) : List OutboxRow :=
  effects.foldl (fun rows effect => match effect with
    | .xadd _ => rows
    | .mark_sent event_id => Ledger.markSent event_id rows) rows

theorem published_append (es es' : List Effect) :
    published (es ++ es') = published es ++ published es' := List.filterMap_append

theorem marked_append (es es' : List Effect) (rows : List OutboxRow) :
    marked (es ++ es') rows = marked es' (marked es rows) := List.foldl_append

/-- The effects on one row, up to the last: the event is published once or twice. -/
theorem RelayedTo.row {done todo : List OutboxRow} {r : OutboxRow} {k : Nat}
    {log : List (Envelope δ)} (hkeyed : Keyed loads (done ++ r :: todo))
    (h : RelayedTo loads done (r :: todo) k log) {n : Nat} (hn : 0 < n) :
    RelayedTo loads done (r :: todo) (max k (done.length + 1))
      (log ++ List.replicate n (loads r.payload)) := by
  induction n, hn using Nat.le_induction with
  | base => exact h.publish hkeyed
  | succ n hn ih =>
    rw [List.replicate_succ', ← List.append_assoc]
    have hagain := ih.publish hkeyed
    rwa [Nat.max_eq_left (Nat.le_max_right ..)] at hagain

/-- **The relay, cut off anywhere.** -/
theorem RelayedTo.effects {done todo : List OutboxRow} {k : Nat} {log : List (Envelope δ)}
    (hkeyed : Keyed loads (done ++ todo)) (h : RelayedTo loads done todo k log)
    (inject_dup : Bool) (n : Nat) :
    let effects := ((todo.map fun r => (r.event_id, r.payload)).flatMap
      (rowEffects inject_dup)).take n
    Relayed loads (marked effects (done ++ todo)) (log ++ (published effects).map loads) := by
  induction todo generalizing done k log n with
  | nil =>
    rw [List.map_nil, List.flatMap_nil, List.take_nil]
    exact ⟨done, [], k, rfl, by simpa [published] using h⟩
  | cons r todo ih =>
    intro effects
    have htake : effects = (rowEffects inject_dup (r.event_id, r.payload)).take n ++
        ((todo.map fun r => (r.event_id, r.payload)).flatMap (rowEffects inject_dup)).take
          (n - (rowEffects inject_dup (r.event_id, r.payload)).length) := List.take_append
    rw [htake, marked_append, published_append, List.map_append, ← List.append_assoc]
    obtain ⟨m, hm, hrow⟩ : ∃ m, 0 < m ∧ rowEffects inject_dup (r.event_id, r.payload) =
        List.replicate m (.xadd r.payload) ++ [.mark_sent r.event_id] := by
      cases inject_dup
      · exact ⟨1, Nat.one_pos, rfl⟩
      · exact ⟨2, Nat.two_pos, rfl⟩
    have hxadds : ∀ j, published (List.replicate j (Effect.xadd r.payload)) =
        List.replicate j r.payload := by
      intro j
      induction j with
      | zero => rfl
      | succ j ih => exact congrArg (r.payload :: ·) ih
    have hkeep : ∀ j rows, marked (List.replicate j (Effect.xadd r.payload)) rows = rows := by
      intro j rows
      induction j with
      | zero => rfl
      | succ j ih => exact ih
    rcases Nat.lt_or_ge n (rowEffects inject_dup (r.event_id, r.payload)).length with hn | hn
    · -- The row is not marked.
      have hle : n ≤ m := by
        rw [hrow, List.length_append, List.length_replicate, List.length_singleton] at hn
        omega
      rw [Nat.sub_eq_zero_of_le hn.le, List.take_zero, hrow,
        List.take_append_of_le_length (by rwa [List.length_replicate]), List.take_replicate,
        Nat.min_eq_left hle, hxadds, hkeep]
      refine ⟨done, r :: todo, if n = 0 then k else max k (done.length + 1), rfl, ?_⟩
      have hnil : marked [] (done ++ r :: todo) = done ++ r :: todo := rfl
      simp only [published, List.filterMap_nil, List.map_nil, List.append_nil, List.map_replicate]
      split
      · rename_i hzero
        rw [hzero, List.replicate_zero, List.append_nil]
        exact h
      · rename_i hpos
        exact h.row hkeyed (Nat.pos_of_ne_zero hpos)
    · -- It is, and the next rows follow.
      have hpublished := h.row hkeyed hm
      obtain ⟨hmark, hdone⟩ := hpublished.mark hkeyed
        (Nat.lt_of_lt_of_le (Nat.lt_succ_self _) (Nat.le_max_right ..))
      have hrows : marked (rowEffects inject_dup (r.event_id, r.payload)) (done ++ r :: todo) =
          (done ++ [{ r with sent := true }]) ++ todo := by
        rw [hrow, marked_append, hkeep, ← hmark]
        rfl
      have hlog : (published (rowEffects inject_dup (r.event_id, r.payload))).map loads =
          List.replicate m (loads r.payload) := by
        rw [hrow, published_append, hxadds, List.map_append, List.map_replicate]
        exact List.append_nil _
      rw [List.take_of_length_le hn, hrows, hlog]
      exact ih (hmark ▸ hkeyed.markSent r.event_id) hdone _

theorem Relayed.effects {rows : List OutboxRow} {log : List (Envelope δ)}
    (hkeyed : Keyed loads rows) (h : Relayed loads rows log) (inject_dup : Bool) (n : Nat) :
    let effects := (((rows.filter fun row => !row.sent).map fun row =>
      (row.event_id, row.payload)).flatMap (rowEffects inject_dup)).take n
    Relayed loads (marked effects rows) (log ++ (published effects).map loads) := by
  obtain ⟨done, todo, k, rfl, h⟩ := h
  have hunsent : (done ++ todo).filter (fun row => !row.sent) = todo := by
    rw [List.filter_append, List.filter_eq_nil_iff.mpr, List.nil_append, List.filter_eq_self.mpr]
    · exact fun r hr => by rw [h.unsent r hr]; rfl
    · exact fun r hr => by rw [h.sent r hr]; decide
  rw [hunsent]
  exact h.effects hkeyed inject_dup n

/-- What the relay does to the two parties. -/
theorem foldl_effects (loads : Envelope LedgerData → Envelope δ) (stream : String) (effects : List Effect) (l : Ledger)
    (b : StreamBus (Envelope δ)) :
    let s := effects.foldl (Effect.apply loads stream) (l, b)
    s.1.db.outbox_events = marked effects l.db.outbox_events ∧
      s.1.db.journal_entries = l.db.journal_entries ∧
      s.2.groups = b.groups ∧
      s.2 = ((published effects).map loads).foldl (fun b e => (b.xadd stream e).2) b := by
  induction effects generalizing l b with
  | nil => exact ⟨rfl, rfl, rfl, rfl⟩
  | cons e effects ih =>
    cases e with
    | xadd payload => exact ih l (b.xadd stream (loads payload)).2
    | mark_sent event_id => exact ih (Ledger.exec (Ledger.mark_sent event_id) l).2 b

end Relayed

end TradePulse.Outbox
