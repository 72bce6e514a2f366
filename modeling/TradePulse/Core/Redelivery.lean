import Mathlib.Data.List.DropRight
import Mathlib.Data.List.Sort

/-! # A stream read again

A reader takes one entry after the other, by their numbers, and its cursor may
be put back at any time. No entry is skipped, so what was read of any kind of
entries ends like the stream does, wherever that end is in order. -/
namespace TradePulse.Core.Redelivery

/-- The reader's cursor, and the entries that it has taken, in its order. -/
inductive Redelivered : Nat → List Nat → Prop
  | nil : Redelivered 0 []
  | read {n : Nat} {ids : List Nat} : Redelivered n ids → Redelivered (n + 1) (ids ++ [n + 1])
  | reset {n m : Nat} {ids : List Nat} : Redelivered n ids → m ≤ n → Redelivered m ids

/-- Each entry once. -/
def once (n : Nat) : List Nat := List.range' 1 n

theorem mem_once {n i : Nat} : i ∈ once n ↔ 0 < i ∧ i ≤ n := by
  rw [once, List.mem_range'_1]
  omega

theorem once_succ (n : Nat) : once (n + 1) = once n ++ [n + 1] := by
  rw [once, List.range'_1_concat, once, Nat.add_comm 1 n]

theorem once_pairwise (n : Nat) : (once n).Pairwise (· < ·) := List.pairwise_lt_range'

theorem rtake_one {α : Type} (xs : List α) : xs.rtake 1 = xs.getLast?.toList := by
  rcases List.eq_nil_or_concat xs with rfl | ⟨xs, x, rfl⟩
  · rfl
  · rw [List.concat_eq_append, List.rtake_concat_succ, List.rtake_zero, List.getLast?_concat]
    rfl

namespace Redelivered

variable {n : Nat} {ids : List Nat}

theorem once (n : Nat) : Redelivered n (once n) := by
  induction n with
  | zero => exact .nil
  | succ n ih =>
    rw [once_succ]
    exact ih.read

theorem pos (h : Redelivered n ids) : ∀ i ∈ ids, 0 < i := by
  induction h with
  | nil => exact fun i hi => absurd hi List.not_mem_nil
  | read _ ih =>
    intro i hi
    rcases List.mem_append.mp hi with hi | hi
    · exact ih i hi
    · rw [List.mem_singleton.mp hi]
      exact Nat.succ_pos _
  | reset _ _ ih => exact ih

/-- What lies before the cursor was read. -/
theorem mem (h : Redelivered n ids) {i : Nat} (hpos : 0 < i) (hi : i ≤ n) : i ∈ ids := by
  induction h with
  | nil => omega
  | read _ ih =>
    rename_i n ids _
    by_cases hn : i = n + 1
    · exact List.mem_append_right _ (List.mem_singleton.mpr hn)
    · exact List.mem_append_left _ (ih (by omega))
  | reset _ hm ih => exact ih (hi.trans hm)

/-- From any entry on, the reader comes to the cursor without skipping one. -/
theorem mem_from (h : Redelivered n ids) {before rest : List Nat} {t : Nat}
    (hids : ids = before ++ t :: rest) {i : Nat} (ht : t ≤ i) (hi : i ≤ n) :
    i ∈ t :: rest := by
  induction h generalizing rest with
  | nil =>
    obtain ⟨-, hrest⟩ := List.nil_eq_append_iff.mp hids
    cases hrest
  | read _ ih =>
    rename_i n ids _
    rcases List.eq_nil_or_concat rest with rfl | ⟨rest, x, rfl⟩
    · have hlast := (List.append_inj' hids rfl).2
      rw [List.cons.injEq] at hlast
      rw [List.mem_singleton]
      omega
    · rw [List.concat_eq_append, ← List.cons_append, ← List.append_assoc] at hids
      obtain ⟨hinit, hx⟩ := List.append_inj' hids rfl
      rw [List.concat_eq_append, ← List.cons_append, ← hx]
      by_cases hn : i = n + 1
      · exact List.mem_append_right _ (List.mem_singleton.mpr hn)
      · exact List.mem_append_left _ (ih hinit (by omega))
  | reset _ hm ih => exact ih hids (hi.trans hm)

/-- An ascending end of what was read of a kind of entries is the end of them all. -/
theorem ascending_suffix (h : Redelivered n ids) (hle : ∀ i ∈ ids, i ≤ n) {p : Nat → Bool}
    {before last : List Nat} (hids : ids.filter p = before ++ last)
    (hlast : last.Pairwise (· < ·)) : last <:+ (Redelivery.once n).filter p := by
  cases last with
  | nil => exact List.nil_suffix
  | cons t last =>
    obtain ⟨ids₁, ids₂, rfl, -, hkept⟩ := List.filter_eq_append_iff.mp hids
    obtain ⟨skipped, rest, rfl, -, ht, hrest⟩ := List.filter_eq_cons_iff.mp hkept
    have htmem : t ∈ ids₁ ++ (skipped ++ t :: rest) :=
      List.mem_append_right _ (List.mem_append_right _ List.mem_cons_self)
    have hpos := h.pos t htmem
    have htle := hle t htmem
    have hmem : ∀ i, i ∈ t :: last ↔ i ∈ (List.range' t (n + 1 - t)).filter p := by
      intro i
      rw [List.mem_filter, List.mem_range'_1]
      constructor
      · intro hi
        have hread : i ∈ (skipped ++ t :: rest).filter p := hkept ▸ hi
        obtain ⟨hread, hp⟩ := List.mem_filter.mp hread
        have hin := hle i (List.mem_append_right _ hread)
        have hti : t ≤ i := by
          rcases List.mem_cons.mp hi with rfl | hi
          · exact Nat.le_refl _
          · exact ((List.pairwise_cons.mp hlast).1 i hi).le
        exact ⟨by omega, hp⟩
      · rintro ⟨hrange, hp⟩
        have hfrom := h.mem_from (List.append_assoc ..).symm (by omega : t ≤ i) (by omega)
        rw [← hrest, ← List.filter_cons_of_pos ht]
        exact List.mem_filter.mpr ⟨hfrom, hp⟩
    have hrange : Redelivery.once n = Redelivery.once (t - 1) ++ List.range' t (n + 1 - t) := by
      have hfirst : 1 + (t - 1) = t := by omega
      have hall : t - 1 + (n + 1 - t) = n := by omega
      rw [Redelivery.once, Redelivery.once, ← hall, ← List.range'_append_1, hfirst, hall]
    rw [hlast.eq_of_mem_iff (List.Pairwise.filter p List.pairwise_lt_range') hmem, hrange,
      List.filter_append]
    exact List.suffix_append ..

/-- **The end of what was read.** The last `k` entries read of a kind are the
last `k` of it on the stream if and only if they were read in order. -/
theorem rtake_filter_iff (h : Redelivered n ids) (hle : ∀ i ∈ ids, i ≤ n) (p : Nat → Bool)
    (k : Nat) : ((ids.filter p).rtake k).Pairwise (· < ·) ↔
      (ids.filter p).rtake k = ((Redelivery.once n).filter p).rtake k := by
  have honce := (once_pairwise n).filter p
  constructor
  · intro hlast
    have hsplit : ids.filter p = _ ++ (ids.filter p).rtake k := (List.take_append_drop ..).symm
    obtain ⟨earlier, hearlier⟩ := h.ascending_suffix hle hsplit hlast
    rcases Nat.le_total k (ids.filter p).length with hk | hk
    · have hlen : ((ids.filter p).rtake k).length = k := by
        rw [List.rtake, List.length_drop]
        omega
      rw [← hearlier]
      generalize (ids.filter p).rtake k = last at hlen
      rw [List.rtake, List.drop_left']
      rw [List.length_append]
      omega
    · have hall : (ids.filter p).rtake k = ids.filter p := by
        rw [List.rtake, Nat.sub_eq_zero_of_le hk, List.drop_zero]
      rw [hall] at hlast ⊢
      have heq : ids.filter p = (Redelivery.once n).filter p := by
        refine hlast.eq_of_mem_iff honce fun i => ?_
        rw [List.mem_filter, List.mem_filter, mem_once]
        refine and_congr_left fun _ => ⟨fun hi => ⟨h.pos i hi, hle i hi⟩, fun hi => h.mem hi.1 hi.2⟩
      rw [← heq, hall]
  · intro heq
    rw [heq]
    exact honce.sublist (List.drop_sublist ..)

/-- What is read last of a kind is the last of it on the stream. -/
theorem getLast?_filter (h : Redelivered n ids) (hle : ∀ i ∈ ids, i ≤ n) (p : Nat → Bool) :
    (ids.filter p).getLast? = ((Redelivery.once n).filter p).getLast? := by
  have hone : ((ids.filter p).rtake 1).Pairwise (· < ·) := by
    rw [rtake_one]
    cases (ids.filter p).getLast? with
    | none => exact List.Pairwise.nil
    | some i => exact List.pairwise_singleton ..
  have heq := (h.rtake_filter_iff hle p 1).mp hone
  rw [rtake_one, rtake_one] at heq
  simpa only [Option.head?_toList] using congrArg List.head? heq

end Redelivered

end TradePulse.Core.Redelivery
