import TradePulse.Core.StreamLog
import Mathlib.Data.List.Nodup

/-! # A consumer group on an append-only stream

`XREADGROUP … >` delivers what lies behind the group's cursor and makes it
pending; `XAUTOCLAIM` hands out pending entries again that have been idle long
enough; `XACK` ends that. `XGROUP SETID` moves the cursor, so that entries may
be delivered any number of times. -/
namespace TradePulse.Core
open TradePulse.Core.StreamLog

/-- `pending` has the time of the last delivery of each pending entry; `acked`
records every entry ever acknowledged. -/
structure ConsumerGroup (α : Type) where
  log : List α
  next : Nat
  pending : Nat → Option Nat
  clock : Nat
  acked : List Nat

namespace ConsumerGroup

variable {α : Type}

/-- The entries are delivered now. -/
def deliver (g : ConsumerGroup α) (entries : List (Nat × α)) : ConsumerGroup α :=
  { g with pending := fun id => if id ∈ entries.map (·.1) then some g.clock else g.pending id }

/-- What `XREADGROUP … COUNT n … >` delivers. -/
def unread (g : ConsumerGroup α) (count : Nat) : List (Nat × α) := (after g.log g.next).take count

def readgroup (g : ConsumerGroup α) (count : Nat) : ConsumerGroup α :=
  { g.deliver (g.unread count) with next := g.next + (g.unread count).length }

/-- What `XAUTOCLAIM … min-idle 0-0 COUNT n` claims: of the first `10 n` pending
entries those idle for `minIdle`, at most `n`. -/
def claimable (g : ConsumerGroup α) (minIdle count : Nat) : List (Nat × α) :=
  ((((after g.log 0).filter fun e => (g.pending e.1).isSome).take (10 * count)).filter
    fun e => (g.pending e.1).any fun t => minIdle ≤ g.clock - t).take count

def autoclaim (g : ConsumerGroup α) (minIdle count : Nat) : ConsumerGroup α :=
  g.deliver (g.claimable minIdle count)

def ack (g : ConsumerGroup α) (id : Nat) : ConsumerGroup α :=
  { g with pending := fun m => if m = id then none else g.pending m, acked := g.acked ++ [id] }

def add (g : ConsumerGroup α) (e : α) : ConsumerGroup α := { g with log := g.log ++ [e] }

/-- `XGROUP SETID`. -/
def setId (g : ConsumerGroup α) (n : Nat) : ConsumerGroup α := { g with next := n }

/-- Time passes. -/
def tick (g : ConsumerGroup α) (d : Nat) : ConsumerGroup α := { g with clock := g.clock + d }

/-- A group created at `0`, before any delivery. -/
structure New (g : ConsumerGroup α) : Prop where
  next : g.next = 0
  pending : ∀ id, g.pending id = none
  acked : g.acked = []

/-- Entries and their ids as they stand in the stream, in its order. -/
def InOrder (log : List α) (entries : List (Nat × α)) : Prop :=
  entries.Sublist (after log 0)

section Frames

variable (g : ConsumerGroup α)

@[simp] theorem log_readgroup (n : Nat) : (g.readgroup n).log = g.log := rfl
@[simp] theorem acked_readgroup (n : Nat) : (g.readgroup n).acked = g.acked := rfl
@[simp] theorem log_autoclaim (m n : Nat) : (g.autoclaim m n).log = g.log := rfl
@[simp] theorem acked_autoclaim (m n : Nat) : (g.autoclaim m n).acked = g.acked := rfl
@[simp] theorem log_ack (id : Nat) : (g.ack id).log = g.log := rfl
@[simp] theorem acked_ack (id : Nat) : (g.ack id).acked = g.acked ++ [id] := rfl
@[simp] theorem log_setId (n : Nat) : (g.setId n).log = g.log := rfl
@[simp] theorem acked_setId (n : Nat) : (g.setId n).acked = g.acked := rfl
@[simp] theorem log_tick (d : Nat) : (g.tick d).log = g.log := rfl
@[simp] theorem acked_tick (d : Nat) : (g.tick d).acked = g.acked := rfl
@[simp] theorem log_add (e : α) : (g.add e).log = g.log ++ [e] := rfl
@[simp] theorem acked_add (e : α) : (g.add e).acked = g.acked := rfl

/-- Entries that are added one after the other. -/
theorem log_addAll (entries : List α) : (entries.foldl add g).log = g.log ++ entries := by
  induction entries generalizing g with
  | nil => exact (List.append_nil _).symm
  | cons e entries ih =>
    rw [List.foldl_cons, ih, log_add, List.append_assoc, List.singleton_append]

theorem next_addAll (entries : List α) : (entries.foldl add g).next = g.next := by
  induction entries generalizing g with
  | nil => rfl
  | cons e entries ih => exact ih (g.add e)

theorem pending_addAll (entries : List α) : (entries.foldl add g).pending = g.pending := by
  induction entries generalizing g with
  | nil => rfl
  | cons e entries ih => exact ih (g.add e)

end Frames

theorem inOrder_unread (g : ConsumerGroup α) (n : Nat) : InOrder g.log (g.unread n) :=
  (List.take_sublist ..).trans (after_sublist g.log g.next)

theorem inOrder_claimable (g : ConsumerGroup α) (m n : Nat) : InOrder g.log (g.claimable m n) :=
  (List.take_sublist ..).trans (List.filter_sublist.trans
    ((List.take_sublist ..).trans List.filter_sublist))

/-- An entry handed out is the one the stream has under its id. -/
theorem InOrder.getElem? {log : List α} {entries : List (Nat × α)} (h : InOrder log entries)
    {e : Nat × α} (he : e ∈ entries) : 0 < e.1 ∧ log[e.1 - 1]? = some e.2 :=
  mem_after.mp (h.subset he)

theorem InOrder.mem_log {log : List α} {entries : List (Nat × α)} (h : InOrder log entries)
    {x : α} (hx : x ∈ entries.map Prod.snd) : x ∈ log := by
  obtain ⟨e, he, rfl⟩ := List.mem_map.mp hx
  exact List.mem_of_getElem? (h.getElem? he).2

/-- There is one entry under an id. -/
theorem InOrder.mem_of_id {log : List α} {entries : List (Nat × α)} (h : InOrder log entries)
    {e : Nat × α} (he : e ∈ after log 0) (hid : e.1 ∈ entries.map Prod.fst) : e ∈ entries := by
  obtain ⟨e', he', hid⟩ := List.mem_map.mp hid
  have hget := (h.getElem? he').2
  rw [hid, (mem_after.mp he).2] at hget
  rwa [Prod.ext hid (Option.some.inj hget).symm] at he'

theorem InOrder.grow {log log' : List α} {entries : List (Nat × α)} (h : InOrder log entries)
    (hlog : log <+: log') : InOrder log' entries :=
  h.trans (after_mono hlog (Nat.zero_le _)).sublist

/-! ## What is still to be acknowledged -/

section Backlog

variable (g : ConsumerGroup α)

/-- Acknowledge some entries. -/
def ackAll (ids : List Nat) : ConsumerGroup α := ids.foldl ack g

@[simp] theorem log_ackAll (ids : List Nat) : (g.ackAll ids).log = g.log := by
  induction ids generalizing g with
  | nil => rfl
  | cons id ids ih => exact ih (g.ack id)

@[simp] theorem next_ackAll (ids : List Nat) : (g.ackAll ids).next = g.next := by
  induction ids generalizing g with
  | nil => rfl
  | cons id ids ih => exact ih (g.ack id)

@[simp] theorem clock_ackAll (ids : List Nat) : (g.ackAll ids).clock = g.clock := by
  induction ids generalizing g with
  | nil => rfl
  | cons id ids ih => exact ih (g.ack id)

theorem pending_ackAll (ids : List Nat) (m : Nat) :
    (g.ackAll ids).pending m = if m ∈ ids then none else g.pending m := by
  induction ids generalizing g with
  | nil => rfl
  | cons id ids ih =>
    rw [ackAll, List.foldl_cons]
    refine (ih (g.ack id)).trans ?_
    rw [ack]
    by_cases hm : m = id <;> simp [hm]

/-- The pending entries, as `XAUTOCLAIM` scans them. -/
def pendingEntries : List (Nat × α) := (after g.log 0).filter fun e => (g.pending e.1).isSome

/-- The pending entries and those still to be delivered. -/
def backlog : Nat := g.pendingEntries.length + (after g.log g.next).length

/-- Every pending entry has been idle for `minIdle`. -/
def Rested (minIdle : Nat) : Prop := ∀ id t, g.pending id = some t → minIdle ≤ g.clock - t

variable {g}

/-- Then a claim hands out the first pending entries. -/
theorem Rested.claimable {minIdle : Nat} (h : g.Rested minIdle) (count : Nat) :
    g.claimable minIdle count = g.pendingEntries.take count := by
  have hidle : ∀ e ∈ g.pendingEntries.take (10 * count),
      ((g.pending e.1).any fun t => minIdle ≤ g.clock - t) = true := by
    intro e he
    obtain ⟨t, ht⟩ := Option.isSome_iff_exists.mp (List.mem_filter.mp (List.mem_of_mem_take he)).2
    simpa [ht] using h e.1 t ht
  rw [ConsumerGroup.claimable, ← pendingEntries, List.filter_eq_self.mpr hidle, List.take_take]
  congr 1
  omega

theorem rested_zero (g : ConsumerGroup α) : g.Rested 0 := fun _ _ _ => Nat.zero_le _

theorem pendingEntries_eq_nil (h : ∀ id, g.pending id = none) : g.pendingEntries = [] :=
  List.filter_eq_nil_iff.mpr fun e _ => by simp [h e.1]

theorem inOrder_pendingEntries : InOrder g.log g.pendingEntries := List.filter_sublist

/-- The one entry that is pending. -/
theorem pendingEntries_single {n : Nat} {e : α} (hn : g.pending n ≠ none)
    (honly : ∀ id, g.pending id ≠ none → id = n) (he : g.log[n - 1]? = some e) (hpos : 0 < n) :
    g.pendingEntries = [(n, e)] := by
  have hmem : (n, e) ∈ g.pendingEntries :=
    List.mem_filter.mpr ⟨mem_after.mpr ⟨hpos, he⟩, Option.isSome_iff_ne_none.mpr hn⟩
  have hid : ∀ x ∈ g.pendingEntries, x.1 = n := fun x hx =>
    honly x.1 (Option.isSome_iff_ne_none.mp (List.mem_filter.mp hx).2)
  have hlt : g.pendingEntries.Pairwise fun x y => x.1 < y.1 :=
    (after_pairwise g.log 0).sublist List.filter_sublist
  match hl : g.pendingEntries, hmem, hid, hlt with
  | [], hmem, _, _ => cases hmem
  | [x], hmem, _, _ => rw [List.mem_singleton.mp hmem]
  | x :: y :: rest, _, hid, hlt =>
    have hxy := List.rel_of_pairwise_cons hlt (List.mem_cons_self (a := y) (l := rest))
    rw [hid x (by simp), hid y (by simp)] at hxy
    exact absurd hxy (Nat.lt_irrefl n)

/-- Fewer entries are pending once some have been acknowledged. -/
theorem pendingEntries_sublist {g' : ConsumerGroup α} (hlog : g'.log = g.log)
    (h : ∀ id, g'.pending id ≠ none → g.pending id ≠ none) :
    g'.pendingEntries.Sublist g.pendingEntries := by
  rw [pendingEntries, pendingEntries, hlog]
  refine List.monotone_filter_right _ fun e he => ?_
  rw [Option.isSome_iff_ne_none] at he ⊢
  exact h e.1 he

/-- Claim the first pending entries, and acknowledge them. -/
def takeIdle (g : ConsumerGroup α) (minIdle count : Nat) : ConsumerGroup α :=
  (g.autoclaim minIdle count).ackAll ((g.claimable minIdle count).map Prod.fst)

/-- Read the next entries, and acknowledge them. -/
def takeNew (g : ConsumerGroup α) (count : Nat) : ConsumerGroup α :=
  (g.readgroup count).ackAll ((g.unread count).map Prod.fst)

@[simp] theorem log_takeIdle (m n : Nat) : (g.takeIdle m n).log = g.log := by
  rw [takeIdle, log_ackAll, log_autoclaim]

@[simp] theorem log_takeNew (n : Nat) : (g.takeNew n).log = g.log := by
  rw [takeNew, log_ackAll, log_readgroup]

@[simp] theorem next_takeIdle (m n : Nat) : (g.takeIdle m n).next = g.next := by
  rw [takeIdle, next_ackAll]
  rfl

@[simp] theorem next_takeNew (n : Nat) : (g.takeNew n).next = g.next + (g.unread n).length := by
  rw [takeNew, next_ackAll]
  rfl

@[simp] theorem clock_takeIdle (m n : Nat) : (g.takeIdle m n).clock = g.clock := by
  rw [takeIdle, clock_ackAll]
  rfl

@[simp] theorem clock_takeNew (n : Nat) : (g.takeNew n).clock = g.clock := by
  rw [takeNew, clock_ackAll]
  rfl

theorem pending_takeIdle (minIdle count m : Nat) : (g.takeIdle minIdle count).pending m =
    if m ∈ (g.claimable minIdle count).map Prod.fst then none else g.pending m := by
  rw [takeIdle, pending_ackAll]
  split
  · rfl
  · rename_i hm
    simp only [autoclaim, deliver, if_neg hm]

theorem pending_takeNew (count m : Nat) : (g.takeNew count).pending m =
    if m ∈ (g.unread count).map Prod.fst then none else g.pending m := by
  rw [takeNew, pending_ackAll]
  split
  · rfl
  · rename_i hm
    simp only [readgroup, deliver, if_neg hm]

/-- What is pending afterwards was pending before. -/
theorem pending_of_takeIdle {minIdle count id t : Nat}
    (h : (g.takeIdle minIdle count).pending id = some t) : g.pending id = some t := by
  rw [pending_takeIdle] at h
  split at h
  · cases h
  · exact h

theorem pending_of_takeNew {count id t : Nat} (h : (g.takeNew count).pending id = some t) :
    g.pending id = some t := by
  rw [pending_takeNew] at h
  split at h
  · cases h
  · exact h

theorem Rested.takeIdle {minIdle : Nat} (h : g.Rested minIdle) (m n : Nat) :
    (g.takeIdle m n).Rested minIdle := by
  intro id t ht
  rw [clock_takeIdle]
  exact h id t (pending_of_takeIdle ht)

theorem Rested.takeNew {minIdle : Nat} (h : g.Rested minIdle) (n : Nat) :
    (g.takeNew n).Rested minIdle := by
  intro id t ht
  rw [clock_takeNew]
  exact h id t (pending_of_takeNew ht)

theorem Rested.tick {minIdle : Nat} (h : g.Rested minIdle) (d : Nat) :
    (g.tick d).Rested minIdle := by
  intro id t ht
  have hidle := h id t ht
  simp only [ConsumerGroup.tick]
  omega

/-- A claim leaves fewer entries pending, if any were. -/
theorem backlog_takeIdle {minIdle count : Nat} (h : g.Rested minIdle) (hcount : 1 ≤ count) :
    (g.takeIdle minIdle count).backlog ≤ g.backlog ∧
      (g.pendingEntries ≠ [] → (g.takeIdle minIdle count).backlog < g.backlog) := by
  have hsub : (g.takeIdle minIdle count).pendingEntries.Sublist g.pendingEntries := by
    refine pendingEntries_sublist (by simp) fun id hid => ?_
    obtain ⟨t, ht⟩ := Option.ne_none_iff_exists'.mp hid
    rw [pending_of_takeIdle ht]
    nofun
  rw [backlog, backlog, log_takeIdle, next_takeIdle]
  refine ⟨Nat.add_le_add_right hsub.length_le _, fun hne => Nat.add_lt_add_right ?_ _⟩
  refine Nat.lt_of_le_of_ne hsub.length_le fun heq => ?_
  obtain ⟨e, rest, hcons⟩ := List.exists_cons_of_ne_nil hne
  have he : e.1 ∈ (g.claimable minIdle count).map Prod.fst := by
    refine List.mem_map_of_mem ?_
    rw [h.claimable, hcons, List.take_cons (by omega)]
    exact List.mem_cons_self ..
  have hmem : e ∈ (g.takeIdle minIdle count).pendingEntries := by
    rw [hsub.eq_of_length heq, hcons]
    exact List.mem_cons_self ..
  have hsome := (List.mem_filter.mp hmem).2
  rw [pending_takeIdle, if_pos he] at hsome
  cases hsome

theorem unread_one {e : α} (h : g.log[g.next]? = some e) : g.unread 1 = [(g.next + 1, e)] := by
  rw [unread, after_of_getElem? h]
  rfl

theorem unread_ids (g : ConsumerGroup α) (count : Nat) :
    (g.unread count).map Prod.fst = List.range' (g.next + 1) (g.unread count).length := by
  rw [unread, List.map_take, after_ids, List.length_take, length_after]
  by_cases h : count ≤ g.log.length - g.next
  · rw [List.take_range'_of_length_ge h, Nat.min_eq_left h]
  · rw [List.take_range'_of_length_le (by omega), Nat.min_eq_right (by omega)]

/-- Reading leaves fewer entries to deliver, if any were. -/
theorem backlog_takeNew (g : ConsumerGroup α) {count : Nat} (hcount : 1 ≤ count) :
    (g.takeNew count).backlog ≤ g.backlog ∧
      (after g.log g.next ≠ [] → (g.takeNew count).backlog < g.backlog) := by
  have hsub : (g.takeNew count).pendingEntries.Sublist g.pendingEntries := by
    refine pendingEntries_sublist (by simp) fun id hid => ?_
    obtain ⟨t, ht⟩ := Option.ne_none_iff_exists'.mp hid
    rw [pending_of_takeNew ht]
    nofun
  have hle := hsub.length_le
  have hunread : (g.unread count).length = min count (after g.log g.next).length := by
    rw [unread, List.length_take]
  have hafter : (after (g.takeNew count).log (g.takeNew count).next).length =
      (after g.log g.next).length - min count (after g.log g.next).length := by
    rw [length_after, next_takeNew, log_takeNew, hunread, length_after]
    omega
  refine ⟨?_, fun hne => ?_⟩
  · rw [backlog, backlog, hafter]
    omega
  · have hpos := List.length_pos_of_ne_nil hne
    rw [backlog, backlog, hafter]
    omega

/-- What is pending is still to be read. -/
def Ahead (g : ConsumerGroup α) : Prop := ∀ id, g.pending id ≠ none → g.next < id

theorem Ahead.takeNew (h : g.Ahead) (count : Nat) : (g.takeNew count).Ahead := by
  intro id hid
  rw [pending_takeNew] at hid
  split at hid
  · exact absurd rfl hid
  · rename_i hmem
    have hlt := h id hid
    rw [unread_ids, List.mem_range'_1] at hmem
    rw [next_takeNew]
    omega

/-- Pending, and not to be read again. -/
def Stuck (g : ConsumerGroup α) (id : Nat) : Prop := g.pending id ≠ none ∧ id ≤ g.next

theorem Stuck.takeNew {id : Nat} (h : g.Stuck id) (count : Nat) : (g.takeNew count).Stuck id := by
  have hunread : id ∉ (g.unread count).map Prod.fst := by
    have hle := h.2
    rw [unread_ids, List.mem_range'_1]
    omega
  refine ⟨?_, ?_⟩
  · rw [pending_takeNew, if_neg hunread]
    exact h.1
  · rw [next_takeNew]
    exact Nat.le_trans h.2 (Nat.le_add_right ..)

/-- What is pending stays so when more is read. -/
theorem pending_readgroup {id : Nat} (h : g.pending id ≠ none) (count : Nat) :
    (g.readgroup count).pending id ≠ none := by
  simp only [readgroup, deliver]
  split
  · exact Option.some_ne_none _
  · exact h

theorem Stuck.readgroup {id : Nat} (h : g.Stuck id) (count : Nat) :
    (g.readgroup count).Stuck id :=
  ⟨pending_readgroup h.1 count, Nat.le_trans h.2 (Nat.le_add_right ..)⟩

/-- What is read and not acknowledged is stuck. -/
theorem stuck_readgroup {id : Nat} (h : g.next < id) (count : Nat) :
    (g.readgroup count).next < id ∨ (g.readgroup count).Stuck id := by
  by_cases hid : id ≤ g.next + (g.unread count).length
  · refine .inr ⟨?_, hid⟩
    have hmem : id ∈ (g.unread count).map Prod.fst := by
      rw [unread_ids, List.mem_range'_1]
      omega
    simp only [ConsumerGroup.readgroup, ConsumerGroup.deliver, if_pos hmem]
    exact Option.some_ne_none _
  · exact .inl (Nat.lt_of_not_le hid)

/-- Nothing pending and nothing to deliver. -/
theorem backlog_eq_zero : g.backlog = 0 ↔
    (∀ e ∈ after g.log 0, g.pending e.1 = none) ∧ g.log.length ≤ g.next := by
  rw [backlog, Nat.add_eq_zero_iff, length_after, List.length_eq_zero_iff, pendingEntries,
    List.filter_eq_nil_iff]
  refine and_congr (forall₂_congr fun e _ => ?_) (by omega)
  cases g.pending e.1 <;> simp

/-- Entries are pending since some time, and are on the stream. -/
def Sane (g : ConsumerGroup α) : Prop :=
  ∀ id t, g.pending id = some t → (0 < id ∧ id ≤ g.log.length) ∧ t ≤ g.clock

theorem New.sane (h : g.New) : g.Sane := fun id t ht => by
  rw [h.pending] at ht
  cases ht

theorem Sane.deliver (h : g.Sane) {entries : List (Nat × α)} (he : InOrder g.log entries) :
    (g.deliver entries).Sane := by
  intro id t ht
  simp only [ConsumerGroup.deliver] at ht
  split at ht
  · rename_i hid
    cases ht
    obtain ⟨e, hmem, rfl⟩ := List.mem_map.mp hid
    obtain ⟨hpos, hget⟩ := he.getElem? hmem
    obtain ⟨hlt, -⟩ := List.getElem?_eq_some_iff.mp hget
    exact ⟨⟨hpos, by simp only [ConsumerGroup.deliver]; omega⟩, Nat.le_refl _⟩
  · exact h id t ht

theorem Sane.ack (h : g.Sane) (id : Nat) : (g.ack id).Sane := by
  intro m t ht
  simp only [ConsumerGroup.ack] at ht
  split at ht
  · cases ht
  · exact h m t ht

theorem Sane.add (h : g.Sane) (e : α) : (g.add e).Sane := by
  intro id t ht
  obtain ⟨⟨hpos, hle⟩, hclock⟩ := h id t ht
  exact ⟨⟨hpos, by simp only [log_add, List.length_append]; omega⟩, hclock⟩

theorem Sane.tick (h : g.Sane) (d : Nat) : (g.tick d).Sane := fun id t ht =>
  ⟨(h id t ht).1, Nat.le_trans (h id t ht).2 (Nat.le_add_right ..)⟩

theorem Sane.pending_eq_none (h : g.Sane) (hzero : g.backlog = 0) (id : Nat) :
    g.pending id = none := by
  cases ht : g.pending id with
  | none => rfl
  | some t =>
    obtain ⟨⟨hpos, hle⟩, -⟩ := h id t ht
    have hmem : (id, g.log[id - 1]) ∈ after g.log 0 :=
      mem_after.mpr ⟨hpos, List.getElem?_eq_getElem (by omega)⟩
    exact ht ▸ (backlog_eq_zero.mp hzero).1 _ hmem

theorem Sane.backlog_of_ahead (h : g.Sane) (hahead : g.Ahead) (hread : after g.log g.next = []) :
    g.backlog = 0 := by
  have hlen := length_after g.log g.next
  rw [hread, List.length_nil] at hlen
  refine backlog_eq_zero.mpr ⟨fun e _ => ?_, by omega⟩
  cases ht : g.pending e.1 with
  | none => rfl
  | some t =>
    obtain ⟨⟨-, hle⟩, -⟩ := h e.1 t ht
    have hlt := hahead e.1 (by rw [ht]; nofun)
    omega

/-- Everything has been idle for as long as nothing happened. -/
theorem Sane.rested (h : g.Sane) {minIdle d : Nat} (hd : minIdle ≤ d) : (g.tick d).Rested minIdle := by
  intro id t ht
  have hclock := (h id t ht).2
  simp only [ConsumerGroup.tick]
  omega

end Backlog

/-! ## A group in the order of its stream -/

/-- What is read is a stretch of the stream. -/
theorem map_snd_unread (g : ConsumerGroup α) (n : Nat) :
    (g.unread n).map Prod.snd = between g.log g.next (g.next + (g.unread n).length) := by
  rw [← map_snd_take_after, Nat.add_sub_cancel_left, unread, List.length_take, ← List.take_eq_take_min]

/-- And what is pending is, if its ids are. -/
theorem map_snd_pendingEntries {g : ConsumerGroup α} {l j : Nat}
    (h : ∀ id, g.pending id ≠ none ↔ l < id ∧ id ≤ j) :
    g.pendingEntries.map Prod.snd = between g.log l j := by
  rw [← map_snd_take_after, ← filter_ids, pendingEntries]
  refine congrArg (List.map Prod.snd) (List.filter_congr fun e _ => ?_)
  rw [Bool.eq_iff_iff, decide_eq_true_iff, ← h, Option.isSome_iff_ne_none]

section Behind

variable (g : ConsumerGroup α)

/-- What is pending lies before the cursor. -/
def Behind (g : ConsumerGroup α) : Prop := ∀ id, g.pending id ≠ none → id ≤ g.next

/-- The group destroyed, and created again at `n`. -/
def recreate (n : Nat) : ConsumerGroup α := { g with next := n, pending := fun _ => none }

@[simp] theorem log_recreate (n : Nat) : (g.recreate n).log = g.log := rfl
@[simp] theorem next_recreate (n : Nat) : (g.recreate n).next = n := rfl
@[simp] theorem next_add (e : α) : (g.add e).next = g.next := rfl
@[simp] theorem next_ack (id : Nat) : (g.ack id).next = g.next := rfl
@[simp] theorem next_readgroup (n : Nat) :
    (g.readgroup n).next = g.next + (g.unread n).length := rfl

variable {g}

theorem behind_recreate (n : Nat) : (g.recreate n).Behind := fun _ h => absurd rfl h

theorem sane_recreate (n : Nat) : (g.recreate n).Sane := fun _ _ ht => by cases ht

theorem Behind.add (h : g.Behind) (e : α) : (g.add e).Behind := h

theorem Behind.ack (h : g.Behind) (id : Nat) : (g.ack id).Behind := by
  intro m hm
  simp only [ConsumerGroup.ack, ne_eq, ite_eq_left_iff, Classical.not_imp] at hm
  exact h m hm.2

theorem Behind.readgroup (h : g.Behind) (n : Nat) : (g.readgroup n).Behind := by
  intro m hm
  simp only [ConsumerGroup.readgroup, deliver] at hm
  rw [next_readgroup]
  split at hm
  · rename_i hmem
    rw [unread_ids, List.mem_range'_1] at hmem
    omega
  · exact Nat.le_trans (h m hm) (Nat.le_add_right ..)

theorem Sane.readgroup (h : g.Sane) (n : Nat) : (g.readgroup n).Sane :=
  h.deliver (inOrder_unread g n)

theorem pendingEntries_recreate (n : Nat) : (g.recreate n).pendingEntries = [] :=
  pendingEntries_eq_nil fun _ => rfl

/-- A new entry is not pending. -/
theorem Sane.pendingEntries_add (h : g.Sane) (e : α) :
    (g.add e).pendingEntries = g.pendingEntries := by
  have hnone : g.pending (g.log.length + 1) = none := by
    cases ht : g.pending (g.log.length + 1) with
    | none => rfl
    | some t =>
      obtain ⟨⟨-, hle⟩, -⟩ := h _ t ht
      omega
  rw [pendingEntries, log_add, after_zero_append, List.filter_append, pendingEntries]
  simp [ConsumerGroup.add, hnone]

theorem pendingEntries_ack (id : Nat) :
    (g.ack id).pendingEntries = g.pendingEntries.filter (·.1 ≠ id) := by
  rw [pendingEntries, pendingEntries, List.filter_filter]
  refine List.filter_congr fun e _ => ?_
  by_cases he : e.1 = id <;> simp [ConsumerGroup.ack, he]

/-- What is read joins what is pending, at its end. -/
theorem Behind.pendingEntries_readgroup (h : g.Behind) (n : Nat) :
    (g.readgroup n).pendingEntries = g.pendingEntries ++ g.unread n := by
  have hids : ∀ {id}, id ∈ (g.unread n).map Prod.fst → g.next < id := by
    intro id hid
    rw [unread_ids, List.mem_range'_1] at hid
    omega
  have hold : ((after g.log 0).take g.next).filter (fun e => ((g.readgroup n).pending e.1).isSome) =
      ((after g.log 0).take g.next).filter fun e => (g.pending e.1).isSome := by
    refine List.filter_congr fun e he => ?_
    have hle := id_le_of_mem_take he
    simp only [ConsumerGroup.readgroup, deliver,
      if_neg fun hid => absurd (hids hid) (Nat.not_lt.mpr hle)]
  have hnone : (after g.log g.next).filter (fun e => (g.pending e.1).isSome) = [] := by
    refine List.filter_eq_nil_iff.mpr fun e he hsome => ?_
    have hlt := (mem_after.mp he).1
    have hle := h e.1 (Option.isSome_iff_ne_none.mp hsome)
    omega
  have hnew : (after g.log g.next).filter (fun e => ((g.readgroup n).pending e.1).isSome) =
      g.unread n := by
    conv => lhs; rw [← List.take_append_drop n (after g.log g.next)]
    rw [List.filter_append, List.filter_eq_self.mpr, List.filter_eq_nil_iff.mpr, List.append_nil,
      unread]
    · intro e he hsome
      simp only [ConsumerGroup.readgroup, deliver] at hsome
      have hsub : e ∈ after g.log g.next := List.mem_of_mem_drop he
      split at hsome
      · rename_i hid
        obtain ⟨e', he', hid⟩ := List.mem_map.mp hid
        have hlt := (List.pairwise_append.mp ((List.take_append_drop n (after g.log g.next)).symm ▸
          after_pairwise g.log g.next)).2.2 e' he' e he
        exact absurd hid (Nat.ne_of_lt hlt)
      · have hlt := (mem_after.mp hsub).1
        have hle := h e.1 (Option.isSome_iff_ne_none.mp hsome)
        omega
    · intro e he
      have hmem : e.1 ∈ (g.unread n).map Prod.fst := List.mem_map_of_mem he
      simp only [ConsumerGroup.readgroup, deliver, if_pos hmem, Option.isSome_some]
  rw [pendingEntries, log_readgroup, ← take_append_after g.log g.next, List.filter_append, hold,
    hnew, pendingEntries]
  conv => rhs; rw [← take_append_after g.log g.next]
  rw [List.filter_append, hnone, List.append_nil]

end Behind

end ConsumerGroup
end TradePulse.Core
