import TradePulse.Core.Prog
import TradePulse.Outbox.Delivery

/-! # What the consumer makes of what it is handed

The consumer's state is that of the first occurrence of each event among those
it was handed, in that order. Polls and recoveries hand it entries of the stream
and acknowledge them. -/
namespace TradePulse.Outbox
open TradePulse.Core TradePulse.Core.StreamLog
open TradePulse.Poc (upsert)
open Outbox.Ledger (fetch)

theorem fetch_upsert {κ : Type} [DecidableEq κ] (rows : List (κ × ℚ)) (key key' : κ) (value : ℚ) :
    fetch key' (upsert rows key value) = if key' = key then some value else fetch key' rows := by
  rw [upsert]
  split
  · rename_i hany
    have hrow : (rows.find? fun row => decide (row.1 = key)).isSome = true :=
      List.find?_isSome.mpr (List.any_eq_true.mp hany)
    rw [fetch, find?_key_update (f := fun _ => (key, value)) (fun _ _ => rfl)]
    split
    · obtain ⟨row, hrow⟩ := Option.isSome_iff_exists.mp hrow
      rw [hrow]
      rfl
    · rfl
  · rename_i hany
    have hnew : ∀ row ∈ rows, row.1 ≠ key := fun row hrow hkey =>
      hany (List.any_eq_true.mpr ⟨row, hrow, decide_eq_true hkey⟩)
    rw [fetch, find?_insert hnew]
    split <;> rfl

/-- The consumer has been handed these events. -/
structure Follows (c : RiskConsumer) (xs : List (Envelope LedgerData)) : Prop where
  seen : c.seen = (distinct xs).map (·.event_id)
  applied : c.applied = (distinct xs).length
  skipped : c.applied + c.skipped = xs.length
  view : ∀ key, fetch key c.position_view =
    lastOf ((distinct xs).map fun e => (e.data.key, e.data.position_after)) key

namespace Follows

variable {c : RiskConsumer} {xs : List (Envelope LedgerData)}

theorem new : Follows .new [] := ⟨rfl, rfl, rfl, fun _ => rfl⟩

theorem mem_seen (h : Follows c xs) {id : String} : id ∈ c.seen ↔ id ∈ xs.map (·.event_id) := by
  rw [h.seen]
  exact mem_firstsBy_keys

theorem note (h : Follows c xs) (e : Envelope LedgerData) : Follows (c.note e) (xs ++ [e]) := by
  have hskipped := h.skipped
  rw [RiskConsumer.note]
  split
  · rename_i hmem
    have hsame : distinct (xs ++ [e]) = distinct xs := firstsBy_snoc_known (h.mem_seen.mp hmem)
    refine ⟨hsame ▸ h.seen, hsame ▸ h.applied, ?_, hsame ▸ h.view⟩
    rw [List.length_append, List.length_singleton]
    simp only
    omega
  · rename_i hmem
    have hnew : distinct (xs ++ [e]) = distinct xs ++ [e] :=
      firstsBy_snoc_new fun hid => hmem (h.mem_seen.mpr hid)
    refine ⟨?_, ?_, ?_, fun key => ?_⟩
    · simp only [hnew, List.map_append, h.seen, List.map_singleton]
    · simp only [hnew, List.length_append, h.applied, List.length_singleton]
    · rw [List.length_append, List.length_singleton]
      simp only
      omega
    · simp only [hnew, List.map_append, List.map_singleton, lastOf_snoc, fetch_upsert, h.view,
        eq_comm (a := key)]
      rfl

theorem notes (h : Follows c xs) (es : List (Nat × Envelope LedgerData)) :
    Follows (es.foldl (fun c e => c.note e.2) c) (xs ++ es.map Prod.snd) := by
  induction es generalizing c xs with
  | nil => rwa [List.map_nil, List.append_nil]
  | cons e es ih =>
    have hlater := ih (h.note e.2)
    rwa [List.append_assoc, List.singleton_append] at hlater

end Follows

/-! ## Handing out entries -/

namespace RiskConsumer

variable {c : RiskConsumer} {b : Bus} {g : ConsumerGroup (Envelope LedgerData)}

theorem foldlM_apply (h : Refines b STREAM GROUP g) (c : RiskConsumer)
    (es : List (Nat × Envelope LedgerData)) :
    ∃ b', es.foldlM apply (c, b) = .ok (es.foldl (fun c e => c.note e.2) c, b') ∧
      Refines b' STREAM GROUP (g.ackAll (es.map Prod.fst)) ∧ OnlyGroup (STREAM, GROUP) b b' := by
  induction es generalizing c b g with
  | nil => exact ⟨b, rfl, h, .refl b⟩
  | cons e es ih =>
    obtain ⟨b₁, hack, href, honly⟩ := h.xack e.1
    obtain ⟨b₂, hrest, href', honly'⟩ := ih href (c.note e.2)
    refine ⟨b₂, ?_, href', honly.trans honly'⟩
    have happly : apply (c, b) e = .ok (c.note e.2, b₁) := by
      simp only [apply, hack]
      rfl
    rw [List.foldlM_cons, happly]
    exact hrest

theorem pollLoop_ok (es : List (Nat × Envelope LedgerData)) (s : RiskConsumer × Bus) :
    pollLoop false es s = (es.foldlM apply s).map fun s => (.ok, s) := by
  induction es generalizing s with
  | nil => rfl
  | cons e es ih =>
    rw [pollLoop, List.foldlM_cons]
    cases apply s e with
    | error err => rfl
    | ok s' => exact ih s'

theorem only_foldlM_apply {es : List (Nat × Envelope LedgerData)} {s s' : RiskConsumer × Bus}
    (h : es.foldlM apply s = .ok s') : OnlyGroup (STREAM, GROUP) s.2 s'.2 := by
  induction es generalizing s with
  | nil =>
    cases h
    exact .refl _
  | cons e es ih =>
    rw [List.foldlM_cons] at h
    obtain ⟨s₁, happly, hrest⟩ := except_bind_ok.mp h
    obtain ⟨b, hack, hs⟩ := except_bind_ok.mp happly
    cases hs
    exact (OnlyGroup.xack hack).trans (ih hrest)

theorem only_recover {s s' : RiskConsumer × Bus} (h : recover s = .ok s') :
    OnlyGroup (STREAM, GROUP) s.2 s'.2 := by
  obtain ⟨pending, -, h⟩ := except_bind_ok.mp h
  exact only_foldlM_apply h

theorem only_poll {crash_before_ack : Bool} {s : RiskConsumer × Bus}
    {r : PollResult × RiskConsumer × Bus} (h : poll crash_before_ack s = .ok r) :
    OnlyGroup (STREAM, GROUP) s.2 r.2.2 := by
  obtain ⟨⟨out, b⟩, hread, h⟩ := except_bind_ok.mp h
  refine (OnlyGroup.xreadgroup hread).trans ?_
  change pollLoop crash_before_ack out (s.1, b) = .ok r at h
  cases crash_before_ack with
  | false =>
    rw [pollLoop_ok] at h
    cases hloop : out.foldlM apply (s.1, b) with
    | error e =>
      rw [hloop] at h
      cases h
    | ok s' =>
      rw [hloop] at h
      cases h
      exact only_foldlM_apply hloop
  | true =>
    cases out with
    | nil =>
      cases h
      exact .refl _
    | cons e es =>
      cases h
      exact .refl _

/-- A poll that does not crash takes what is new. -/
theorem poll_ok (h : Refines b STREAM GROUP g) (c : RiskConsumer) :
    ∃ b', poll false (c, b) = .ok (.ok, (g.unread 10).foldl (fun c e => c.note e.2) c, b') ∧
      Refines b' STREAM GROUP (g.takeNew 10) ∧ OnlyGroup (STREAM, GROUP) b b' := by
  obtain ⟨b₁, hread, href, honly⟩ := h.xreadgroup 10
  obtain ⟨b₂, happly, href', honly'⟩ := foldlM_apply href c (g.unread 10)
  refine ⟨b₂, ?_, href', honly.trans honly'⟩
  rw [poll, hread]
  change pollLoop false (g.unread 10) (c, b₁) = _
  rw [pollLoop_ok, happly]
  rfl

/-- A poll that crashes leaves what is new pending. -/
theorem poll_crash (h : Refines b STREAM GROUP g) (c : RiskConsumer) :
    ∃ r b', poll true (c, b) = .ok (r, c, b') ∧ Refines b' STREAM GROUP (g.readgroup 10) ∧
      OnlyGroup (STREAM, GROUP) b b' := by
  obtain ⟨b', hread, href, honly⟩ := h.xreadgroup 10
  have hloop : ∃ r, poll true (c, b) = .ok (r, c, b') := by
    rw [poll, hread]
    change ∃ r, pollLoop true (g.unread 10) (c, b') = _
    cases g.unread 10 with
    | nil => exact ⟨.ok, rfl⟩
    | cons e es => exact ⟨.crashed_before_ack, rfl⟩
  obtain ⟨r, hr⟩ := hloop
  exact ⟨r, b', hr, href, honly⟩

/-- A recovery takes what is pending. -/
theorem recover_ok (h : Refines b STREAM GROUP g) (c : RiskConsumer) :
    ∃ b', recover (c, b) = .ok (g.pendingEntries.foldl (fun c e => c.note e.2) c, b') ∧
      Refines b' STREAM GROUP (g.ackAll (g.pendingEntries.map Prod.fst)) ∧
      OnlyGroup (STREAM, GROUP) b b' := by
  obtain ⟨b', happly, href, honly⟩ := foldlM_apply h c g.pendingEntries
  refine ⟨b', ?_, href, honly⟩
  rw [recover, StreamBus.redeliver_pending, h.xpending]
  exact happly

end RiskConsumer

end TradePulse.Outbox
