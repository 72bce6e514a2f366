import TradePulse.Outbox.StreamBus
import Mathlib.Data.List.Induction

/-! # A group of the bus is a consumer group

The ids of a stream are its positions and the pending entries of a group stay in
the order of the stream, so that `xreadgroup`, `redeliver_pending` and `xack` do
what a consumer group does. `xgroup_create` and `setid` create it again. -/
namespace TradePulse.Outbox
open TradePulse.Core TradePulse.Core.StreamLog

variable {α : Type}

/-- The stream and the group are those of `g`. -/
structure Refines (b : StreamBus α) (stream group : String) (g : ConsumerGroup α) : Prop where
  log : b.streams stream = some (after g.log 0)
  cursor : ∃ last, b.groups (stream, group) = some ⟨last, g.pendingEntries⟩ ∧ last.toNat = g.next
  sane : g.Sane
  behind : g.Behind

/-- No stream has changed, and no other group. -/
structure OnlyGroup (key : String × String) (b b' : StreamBus α) : Prop where
  streams : b'.streams = b.streams
  groups : ∀ k, k ≠ key → b'.groups k = b.groups k

namespace OnlyGroup

variable {key : String × String} {b b' b'' : StreamBus α}

theorem refl (b : StreamBus α) : OnlyGroup key b b := ⟨rfl, fun _ _ => rfl⟩

theorem setGroup (b : StreamBus α) (g : Group α) : OnlyGroup key b (b.setGroup key g) :=
  ⟨rfl, fun _ hk => StreamBus.groups_setGroup_ne hk ..⟩

theorem trans (h : OnlyGroup key b b') (h' : OnlyGroup key b' b'') : OnlyGroup key b b'' :=
  ⟨h'.streams.trans h.streams, fun k hk => (h'.groups k hk).trans (h.groups k hk)⟩

theorem xreadgroup {stream group : String} {count : Int} {out : List (Nat × α)}
    (h : b.xreadgroup stream group count = .ok (out, b')) : OnlyGroup (stream, group) b b' := by
  rw [StreamBus.xreadgroup] at h
  split at h
  · cases h
    exact setGroup ..
  · cases h

theorem xack {stream group : String} {eid : Nat} (h : b.xack stream group eid = .ok b') :
    OnlyGroup (stream, group) b b' := by
  rw [StreamBus.xack] at h
  split at h
  · cases h
    exact setGroup ..
  · cases h

end OnlyGroup

namespace Refines

variable {b b' : StreamBus α} {stream group : String} {g : ConsumerGroup α}

/-- Nothing else of the bus matters. -/
theorem congr (h : Refines b stream group g) (hs : b'.streams stream = b.streams stream)
    (hg : b'.groups (stream, group) = b.groups (stream, group)) : Refines b' stream group g :=
  ⟨hs.trans h.log, by rw [hg]; exact h.cursor, h.sane, h.behind⟩

theorem only (h : Refines b stream group g) {key : String × String} (ho : OnlyGroup key b b')
    (hne : (stream, group) ≠ key) : Refines b' stream group g :=
  h.congr (by rw [ho.streams]) (ho.groups _ hne)

theorem entries (h : Refines b stream group g) : b.entries stream = after g.log 0 := by
  rw [StreamBus.entries, h.log, Option.getD_some]

theorem stream_len (h : Refines b stream group g) : b.stream_len stream = g.log.length := by
  rw [StreamBus.stream_len, h.entries, length_after, Nat.sub_zero]

theorem xadd (h : Refines b stream group g) (e : α) :
    (b.xadd stream e).1 = g.log.length + 1 ∧ Refines (b.xadd stream e).2 stream group (g.add e) := by
  have hlen : (b.entries stream).length = g.log.length := h.stream_len
  refine ⟨congrArg (· + 1) hlen, ?_, ?_, h.sane.add e, h.behind.add e⟩
  · simp only [StreamBus.xadd, StreamBus.streams_setStream, Option.some.injEq]
    rw [hlen, h.entries, ConsumerGroup.log_add, after_zero_append]
  · rw [h.sane.pendingEntries_add]
    exact h.cursor

theorem xadd_ne (h : Refines b stream group g) {stream' : String} (hne : stream ≠ stream')
    (e : α) : Refines (b.xadd stream' e).2 stream group g :=
  h.congr (StreamBus.streams_setStream_ne hne ..) rfl

theorem xreadgroup (h : Refines b stream group g) (count : Int) :
    ∃ b', b.xreadgroup stream group count = .ok (g.unread (max 1 count.toNat), b') ∧
      Refines b' stream group (g.readgroup (max 1 count.toNat)) ∧
      OnlyGroup (stream, group) b b' := by
  obtain ⟨last, hgroup, hlast⟩ := h.cursor
  have hpel : ∀ e ∈ g.pendingEntries, e.1 ≤ g.next := fun e he =>
    h.behind e.1 (Option.isSome_iff_ne_none.mp (List.mem_filter.mp he).2)
  have hskip : ∀ e ∈ (after g.log 0).take g.next, ¬ last < (e.1 : Int) := fun e he => by
    have hle := id_le_of_mem_take he
    have hpos := (mem_after.mp (List.mem_of_mem_take he)).1
    omega
  have hloop : StreamBus.deliver count ⟨last, g.pendingEntries⟩ [] (after g.log 0) =
      (⟨if g.unread (max 1 count.toNat) = [] then last
        else g.next + (g.unread (max 1 count.toNat)).length,
        g.pendingEntries ++ g.unread (max 1 count.toNat)⟩, g.unread (max 1 count.toNat)) := by
    rw [← take_append_after g.log g.next, StreamBus.deliver_skip hskip]
    exact StreamBus.deliver_after g.log hlast hpel
  have hread : b.xreadgroup stream group count = .ok (g.unread (max 1 count.toNat),
      b.setGroup (stream, group) (StreamBus.deliver count ⟨last, g.pendingEntries⟩ []
        (after g.log 0)).1) := by
    simp only [StreamBus.xreadgroup, hgroup, h.log, hloop]
  rw [hloop] at hread
  refine ⟨_, hread, ?_, OnlyGroup.setGroup ..⟩
  refine ⟨h.log, ?_, h.sane.readgroup _, h.behind.readgroup _⟩
  rw [h.behind.pendingEntries_readgroup]
  refine ⟨_, StreamBus.groups_setGroup .., ?_⟩
  rw [ConsumerGroup.next_readgroup]
  split
  · rename_i hnil
    rw [hlast, hnil, List.length_nil, Nat.add_zero]
  · omega

theorem xack (h : Refines b stream group g) (eid : Nat) :
    ∃ b', b.xack stream group eid = .ok b' ∧ Refines b' stream group (g.ack eid) ∧
      OnlyGroup (stream, group) b b' := by
  obtain ⟨last, hgroup, hlast⟩ := h.cursor
  have hack : b.xack stream group eid = .ok (b.setGroup (stream, group)
      ⟨last, g.pendingEntries.filter (·.1 ≠ eid)⟩) := by
    simp only [StreamBus.xack, hgroup]
  refine ⟨_, hack, ⟨h.log, ⟨last, ?_, hlast⟩, h.sane.ack eid, h.behind.ack eid⟩,
    OnlyGroup.setGroup ..⟩
  rw [StreamBus.groups_setGroup, ConsumerGroup.pendingEntries_ack]

theorem xpending (h : Refines b stream group g) :
    b.xpending stream group = .ok g.pendingEntries := by
  obtain ⟨last, hgroup, -⟩ := h.cursor
  rw [StreamBus.xpending, hgroup]

theorem setid (h : Refines b stream group g) (start : Int) :
    Refines (b.setid stream group start) stream group (g.recreate start.toNat) :=
  ⟨h.log, ⟨start, by rw [ConsumerGroup.pendingEntries_recreate]; exact StreamBus.groups_setGroup ..,
    rfl⟩, ConsumerGroup.sane_recreate _, ConsumerGroup.behind_recreate _⟩

end Refines

/-! ## Histories of the bus -/

inductive Op (α : Type) where
  | xadd (stream : String) (entry : α)
  | stream_len (stream : String)
  | xgroup_create (stream group : String) (start : Int)
  | xreadgroup (stream group : String) (count : Int)
  | xack (stream group : String) (eid : Nat)
  | xpending (stream group : String)
  | redeliver_pending (stream group : String)
  | setid (stream group : String) (start : Int)

/-- What an operation returns. -/
inductive Answer (α : Type) where
  | none
  | number (n : Nat)
  | entries (entries : List (Nat × α))

/-- An operation that raises leaves the bus as it is. -/
def Op.exec : Op α → StreamBus α → Except Failure (Answer α) × StreamBus α
  | .xadd stream entry, b => (.ok (.number (b.xadd stream entry).1), (b.xadd stream entry).2)
  | .stream_len stream, b => (.ok (.number (b.stream_len stream)), b)
  | .xgroup_create stream group start, b => (.ok .none, b.xgroup_create stream group start)
  | .xreadgroup stream group count, b => match b.xreadgroup stream group count with
    | .ok (out, b') => (.ok (.entries out), b')
    | .error e => (.error e, b)
  | .xack stream group eid, b => match b.xack stream group eid with
    | .ok b' => (.ok .none, b')
    | .error e => (.error e, b)
  | .xpending stream group, b => ((b.xpending stream group).map .entries, b)
  | .redeliver_pending stream group, b => ((b.redeliver_pending stream group).map .entries, b)
  | .setid stream group start, b => (.ok .none, b.setid stream group start)

/-- The operations on the stream and on the group. -/
def Op.Concerns (stream group : String) : Op α → Prop
  | .xadd s _ | .stream_len s => s = stream
  | .xgroup_create s g _ | .xreadgroup s g _ | .xack s g _ | .xpending s g
  | .redeliver_pending s g | .setid s g _ => (s, g) = (stream, group)

instance (stream group : String) : ∀ op : Op α, Decidable (op.Concerns stream group)
  | .xadd s _ | .stream_len s => inferInstanceAs (Decidable (s = stream))
  | .xgroup_create s g _ | .xreadgroup s g _ | .xack s g _ | .xpending s g
  | .redeliver_pending s g | .setid s g _ =>
    inferInstanceAs (Decidable ((s, g) = (stream, group)))

/-- What it comes to on a consumer group. -/
def Op.onGroup : Op α → ConsumerGroup α → Answer α × ConsumerGroup α
  | .xadd _ entry, g => (.number (g.log.length + 1), g.add entry)
  | .stream_len _, g => (.number g.log.length, g)
  | .xgroup_create _ _ start, g | .setid _ _ start, g => (.none, g.recreate start.toNat)
  | .xreadgroup _ _ count, g =>
    (.entries (g.unread (max 1 count.toNat)), g.readgroup (max 1 count.toNat))
  | .xack _ _ eid, g => (.none, g.ack eid)
  | .xpending _ _, g | .redeliver_pending _ _, g => (.entries g.pendingEntries, g)

/-- The bus after some operations. -/
def afterOps (ops : List (Op α)) (b : StreamBus α) : StreamBus α :=
  ops.foldl (fun b op => (op.exec b).2) b

theorem afterOps_snoc (ops : List (Op α)) (op : Op α) (b : StreamBus α) :
    afterOps (ops ++ [op]) b = (op.exec (afterOps ops b)).2 := by
  rw [afterOps, List.foldl_append]
  rfl

/-- What the operations that concern the group answer. -/
def results (stream group : String) : List (Op α) → StreamBus α → List (Except Failure (Answer α))
  | [], _ => []
  | op :: ops, b =>
    let rest := results stream group ops (op.exec b).2
    if op.Concerns stream group then (op.exec b).1 :: rest else rest

/-- And what they answer on a consumer group. -/
def groupResults (stream group : String) : List (Op α) → ConsumerGroup α → List (Answer α)
  | [], _ => []
  | op :: ops, g =>
    if op.Concerns stream group then
      (op.onGroup g).1 :: groupResults stream group ops (op.onGroup g).2
    else groupResults stream group ops g

/-- What is added to the stream. -/
def added (stream : String) (ops : List (Op α)) : List α :=
  ops.filterMap fun
    | .xadd s entry => if s = stream then some entry else none
    | _ => none

namespace Refines

variable {b : StreamBus α} {stream group : String} {g : ConsumerGroup α}

/-- A new group, at the start that it is given. -/
theorem xgroup_create {log : List α} (h : b.entries stream = after log 0) (start : Int) :
    Refines (b.xgroup_create stream group start) stream group
      ⟨log, start.toNat, fun _ => none, 0, []⟩ := by
  refine ⟨?_, ⟨start, ?_, rfl⟩, (fun _ _ ht => by cases ht), fun _ hid => absurd rfl hid⟩
  · rw [StreamBus.xgroup_create, StreamBus.streams_setGroup, StreamBus.streams_setStream, h]
  · rw [ConsumerGroup.pendingEntries_eq_nil fun _ => rfl]
    exact StreamBus.groups_setGroup ..

theorem recreate (h : Refines b stream group g) (start : Int) :
    Refines (b.xgroup_create stream group start) stream group (g.recreate start.toNat) := by
  have hset : Refines (b.setStream stream (b.entries stream)) stream group g :=
    h.congr (by rw [StreamBus.streams_setStream, h.entries, h.log]) rfl
  exact hset.setid start

/-- An operation that concerns the group answers as the consumer group does. -/
theorem exec (h : Refines b stream group g) {op : Op α} (hop : op.Concerns stream group) :
    (op.exec b).1 = .ok (op.onGroup g).1 ∧ Refines (op.exec b).2 stream group (op.onGroup g).2 := by
  cases op with
  | xadd s entry =>
    cases hop
    obtain ⟨hid, hadd⟩ := h.xadd entry
    exact ⟨congrArg (Except.ok ∘ Answer.number) hid, hadd⟩
  | stream_len s =>
    cases hop
    exact ⟨congrArg (Except.ok ∘ Answer.number) h.stream_len, h⟩
  | xgroup_create s gr start =>
    cases hop
    exact ⟨rfl, h.recreate start⟩
  | xreadgroup s gr count =>
    cases hop
    obtain ⟨b', hread, href, -⟩ := h.xreadgroup count
    simp only [Op.exec, hread]
    exact ⟨rfl, href⟩
  | xack s gr eid =>
    cases hop
    obtain ⟨b', hack, href, -⟩ := h.xack eid
    simp only [Op.exec, hack]
    exact ⟨rfl, href⟩
  | xpending s gr =>
    cases hop
    exact ⟨congrArg (Except.map Answer.entries) h.xpending, h⟩
  | redeliver_pending s gr =>
    cases hop
    exact ⟨congrArg (Except.map Answer.entries) h.xpending, h⟩
  | setid s gr start =>
    cases hop
    exact ⟨rfl, h.setid start⟩

/-- Any other operation leaves the group alone. -/
theorem exec_other (h : Refines b stream group g) {op : Op α}
    (hop : ¬ op.Concerns stream group) : Refines (op.exec b).2 stream group g := by
  have hgroup : ∀ {s gr : String} {b' : StreamBus α}, (s, gr) ≠ (stream, group) →
      OnlyGroup (s, gr) b b' → Refines b' stream group g := fun hne ho => h.only ho (Ne.symm hne)
  cases op with
  | xadd s entry => exact h.xadd_ne (Ne.symm hop) entry
  | stream_len s => exact h
  | xgroup_create s gr start =>
    refine h.congr ?_ (StreamBus.groups_setGroup_ne (Ne.symm hop) ..)
    change (b.setStream s (b.entries s)).streams stream = _
    by_cases hs : stream = s
    · rw [hs, StreamBus.streams_setStream, ← hs, h.entries, h.log]
    · exact StreamBus.streams_setStream_ne hs ..
  | xreadgroup s gr count =>
    simp only [Op.exec, StreamBus.xreadgroup]
    cases b.groups (s, gr) with
    | none => exact h
    | some gs => cases b.streams s with
      | none => exact h
      | some entries => exact hgroup hop (OnlyGroup.setGroup ..)
  | xack s gr eid =>
    simp only [Op.exec, StreamBus.xack]
    cases b.groups (s, gr) with
    | none => exact h
    | some gs => exact hgroup hop (OnlyGroup.setGroup ..)
  | xpending s gr => exact h
  | redeliver_pending s gr => exact h
  | setid s gr start => exact hgroup hop (OnlyGroup.setGroup ..)

theorem results_eq (h : Refines b stream group g) (ops : List (Op α)) :
    results stream group ops b = (groupResults stream group ops g).map .ok := by
  induction ops generalizing b g with
  | nil => rfl
  | cons op ops ih =>
    rw [results, groupResults]
    split
    · rename_i hop
      obtain ⟨hanswer, hnext⟩ := h.exec hop
      rw [hanswer, ih hnext, List.map_cons]
    · rename_i hop
      exact ih (h.exec_other hop)

end Refines

/-- The entries of a stream are those added to it, under their positions. -/
theorem entries_afterOps (stream : String) (ops : List (Op α)) :
    (afterOps ops .new).entries stream = after (added stream ops) 0 := by
  induction ops using List.reverseRecOn with
  | nil => rfl
  | append_singleton ops op ih =>
    have hsplit : added stream (ops ++ [op]) = added stream ops ++ added stream [op] :=
      List.filterMap_append
    rw [afterOps_snoc, hsplit]
    generalize afterOps ops StreamBus.new = b at ih
    rw [StreamBus.entries] at ih ⊢
    cases op with
    | xadd s entry =>
      by_cases hs : s = stream
      · subst hs
        have hlen := congrArg List.length ih
        rw [length_after, Nat.sub_zero] at hlen
        have hadd : added s [Op.xadd s entry] = [entry] := by simp [added]
        rw [hadd, after_zero_append, ← ih]
        simp only [Op.exec, StreamBus.xadd, StreamBus.streams_setStream, Option.getD_some]
        rw [StreamBus.entries, hlen]
      · have hadd : added stream [Op.xadd s entry] = [] := by simp [added, hs]
        rw [hadd, List.append_nil, ← ih]
        simp only [Op.exec, StreamBus.xadd]
        rw [StreamBus.streams_setStream_ne (Ne.symm hs)]
    | xgroup_create s gr start =>
      rw [show added stream [Op.xgroup_create s gr start] = ([] : List α) from rfl,
        List.append_nil, ← ih]
      change ((b.setStream s (b.entries s)).streams stream).getD [] = _
      by_cases hs : stream = s
      · rw [hs, StreamBus.streams_setStream]
        rfl
      · rw [StreamBus.streams_setStream_ne hs]
    | xreadgroup s gr count =>
      rw [show added stream [Op.xreadgroup s gr count] = ([] : List α) from rfl,
        List.append_nil, ← ih]
      simp only [Op.exec, StreamBus.xreadgroup]
      cases b.groups (s, gr) with
      | none => rfl
      | some gs => cases b.streams s <;> rfl
    | xack s gr eid =>
      rw [show added stream [Op.xack s gr eid] = ([] : List α) from rfl, List.append_nil, ← ih]
      simp only [Op.exec, StreamBus.xack]
      cases b.groups (s, gr) <;> rfl
    | stream_len s => exact ih.trans (congrArg (after · 0) (List.append_nil _).symm)
    | xpending s gr => exact ih.trans (congrArg (after · 0) (List.append_nil _).symm)
    | redeliver_pending s gr => exact ih.trans (congrArg (after · 0) (List.append_nil _).symm)
    | setid s gr start => exact ih.trans (congrArg (after · 0) (List.append_nil _).symm)

/-- **The bus is a set of consumer groups.** Whatever was done with the bus
before a group is created and whatever is done with it later, the operations on
the group and its stream answer as those of a consumer group on the entries
added so far. -/
theorem results_after_create (stream group : String) (start : Int) (before ops : List (Op α)) :
    results stream group ops (afterOps (before ++ [.xgroup_create stream group start]) .new) =
      (groupResults stream group ops
        ⟨added stream before, start.toNat, fun _ => none, 0, []⟩).map .ok := by
  rw [afterOps_snoc]
  exact (Refines.xgroup_create (entries_afterOps stream before) start).results_eq ops

end TradePulse.Outbox
