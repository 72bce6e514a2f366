import Mathlib.Data.List.Basic
import Mathlib.Data.List.TakeDrop

/-! # An append-only stream

Entries are only ever added, at the end; the id of an entry is its position,
counted from one. `after` is what a reader with a cursor has not seen yet, and
`between` is what lies between two cursors. -/
namespace TradePulse.Core.StreamLog

variable {α : Type}

/-- The entries behind cursor `n`, with their ids. -/
def after (log : List α) (n : Nat) : List (Nat × α) :=
  ((log.drop n).zipIdx (n + 1)).map Prod.swap

/-- The entries with ids from `i + 1` to `j`. -/
def between (log : List α) (i j : Nat) : List α := (log.take j).drop i

theorem after_of_length_le {log : List α} {n : Nat} (h : log.length ≤ n) : after log n = [] := by
  rw [after, List.drop_of_length_le h]
  rfl

@[simp] theorem after_length (log : List α) : after log log.length = [] :=
  after_of_length_le (Nat.le_refl _)

theorem after_of_getElem? {log : List α} {n : Nat} {e : α} (h : log[n]? = some e) :
    after log n = (n + 1, e) :: after log (n + 1) := by
  obtain ⟨hlt, rfl⟩ := List.getElem?_eq_some_iff.mp h
  rw [after, List.drop_eq_getElem_cons hlt, List.zipIdx_cons, List.map_cons, after]
  rfl

/-- The first entry behind a cursor is the next one. -/
theorem after_eq_cons {log : List α} {n id : Nat} {e : α} {rest : List (Nat × α)}
    (h : after log n = (id, e) :: rest) :
    id = n + 1 ∧ log[n]? = some e ∧ after log (n + 1) = rest := by
  cases hn : log[n]? with
  | none =>
    rw [after_of_length_le (List.getElem?_eq_none_iff.mp hn)] at h
    cases h
  | some e' =>
    rw [after_of_getElem? hn, List.cons.injEq, Prod.mk.injEq] at h
    obtain ⟨⟨rfl, rfl⟩, hrest⟩ := h
    exact ⟨rfl, rfl, hrest⟩

theorem prefix_after_cons {log : List α} {n id : Nat} {e : α} {rest : List (Nat × α)}
    (h : (id, e) :: rest <+: after log n) :
    id = n + 1 ∧ log[n]? = some e ∧ rest <+: after log (n + 1) := by
  obtain ⟨later, h⟩ := h
  obtain ⟨hid, he, hrest⟩ := after_eq_cons h.symm
  exact ⟨hid, he, later, hrest.symm⟩

/-- Behind a cursor lie the entries with greater ids. -/
theorem mem_after {log : List α} {n : Nat} {e : Nat × α} :
    e ∈ after log n ↔ n < e.1 ∧ log[e.1 - 1]? = some e.2 := by
  obtain ⟨id, a⟩ := e
  simp only [after, List.mem_map, Prod.exists, Prod.swap_prod_mk, Prod.mk.injEq,
    List.mk_mem_zipIdx_iff_le_and_getElem?_sub, List.getElem?_drop]
  constructor
  · rintro ⟨b, i, ⟨hle, h⟩, rfl, rfl⟩
    exact ⟨hle, by rwa [show i - 1 = n + (i - (n + 1)) by omega]⟩
  · rintro ⟨hlt, h⟩
    exact ⟨a, id, ⟨hlt, by rwa [show n + (id - (n + 1)) = id - 1 by omega]⟩, rfl, rfl⟩

theorem after_ids (log : List α) (n : Nat) :
    (after log n).map Prod.fst = List.range' (n + 1) (log.length - n) := by
  rw [after, List.map_map, ← List.length_drop]
  exact List.zipIdx_map_snd ..

theorem after_pairwise (log : List α) (n : Nat) :
    (after log n).Pairwise fun e e' => e.1 < e'.1 :=
  List.pairwise_map.mp (after_ids log n ▸ List.pairwise_lt_range')

theorem length_after (log : List α) (n : Nat) : (after log n).length = log.length - n := by
  rw [after, List.length_map, List.length_zipIdx, List.length_drop]

/-- A prefix goes on with the first element it lacks. -/
theorem prefix_snoc {xs log pre post : List α} {x : α} (h : xs <+: log)
    (hlog : log = pre ++ x :: post) (hnodup : log.Nodup) (hx : x ∉ xs)
    (hpre : ∀ y ∈ pre, y ∈ xs) : xs ++ [x] <+: log := by
  have hxs : xs = pre := by
    obtain ⟨rest, rfl⟩ | ⟨rest, rfl⟩ :=
      List.prefix_or_prefix_of_prefix h ⟨x :: post, hlog.symm⟩
    · cases rest with
      | nil => rw [List.append_nil]
      | cons y rest =>
        have hy := hpre y (by simp)
        rw [hlog, List.append_assoc] at hnodup
        exact absurd rfl ((List.nodup_append.mp hnodup).2.2 y hy y (by simp))
    · cases rest with
      | nil => rw [List.append_nil]
      | cons y rest =>
        rw [hlog] at h
        obtain ⟨rfl, -⟩ := List.cons_prefix_cons.mp (List.prefix_append_right_inj _ |>.mp h)
        exact absurd (by simp) hx
  exact ⟨post, by rw [hlog, hxs, List.append_assoc, List.singleton_append]⟩

theorem after_succ (log : List α) (n : Nat) : after log (n + 1) = (after log n).tail := by
  cases h : log[n]? with
  | none =>
    have hle := List.getElem?_eq_none_iff.mp h
    rw [after_of_length_le hle, after_of_length_le (Nat.le_succ_of_le hle)]
    rfl
  | some e => rw [after_of_getElem? h, List.tail_cons]

theorem after_eq_drop (log : List α) (n : Nat) : after log n = (after log 0).drop n := by
  induction n with
  | zero => rfl
  | succ n ih => rw [after_succ, ih, List.tail_drop]

/-- The entries up to a cursor and those behind it. -/
theorem take_append_after (log : List α) (n : Nat) :
    (after log 0).take n ++ after log n = after log 0 := by
  rw [after_eq_drop log n, List.take_append_drop]

theorem id_le_of_mem_take {log : List α} {n : Nat} {e : Nat × α} (h : e ∈ (after log 0).take n) :
    e.1 ≤ n := by
  have hid : e.1 ∈ ((after log 0).take n).map Prod.fst := List.mem_map_of_mem h
  rw [List.map_take, after_ids] at hid
  obtain ⟨i, hi, hget⟩ := List.mem_take_iff_getElem.mp hid
  rw [List.getElem_range'] at hget
  omega

theorem after_sublist (log : List α) (n : Nat) : (after log n).Sublist (after log 0) := by
  induction n with
  | zero => exact List.Sublist.refl _
  | succ n ih =>
    rw [after_succ]
    exact (List.tail_sublist _).trans ih

/-- A stream that grows adds to what a reader has not seen. -/
theorem after_mono {log log' : List α} {n : Nat} (h : log <+: log') (hn : n ≤ log.length) :
    after log n <+: after log' n := by
  obtain ⟨new, rfl⟩ := h
  rw [after, after, List.drop_append_of_le_length hn, List.zipIdx_append, List.map_append]
  exact List.prefix_append ..

theorem after_zero_append (log : List α) (e : α) :
    after (log ++ [e]) 0 = after log 0 ++ [(log.length + 1, e)] := by
  simp [after, List.zipIdx_append, Nat.add_comm]

theorem map_snd_after_zero (log : List α) : (after log 0).map Prod.snd = log := by
  rw [after, List.map_map]
  exact List.zipIdx_map_fst ..

theorem after_zero_inj {log log' : List α} (h : after log 0 = after log' 0) : log = log' := by
  rw [← map_snd_after_zero log, h, map_snd_after_zero]

/-- What comes before an entry was there before it. -/
theorem mem_after_of_lt {log log' : List α} (h : log <+: log') {e e' : Nat × α}
    (he' : e' ∈ after log 0) (hlt : e.1 < e'.1) (he : e ∈ after log' 0) : e ∈ after log 0 := by
  obtain ⟨hpos, hget⟩ := mem_after.mp he
  obtain ⟨hlen, -⟩ := List.getElem?_eq_some_iff.mp (mem_after.mp he').2
  obtain ⟨new, rfl⟩ := h
  exact mem_after.mpr ⟨hpos, by rwa [List.getElem?_append_left (by omega)] at hget⟩

@[simp] theorem between_self (log : List α) (n : Nat) : between log n n = [] :=
  List.drop_eq_nil_of_le (List.length_take_le ..)

theorem between_succ {log : List α} {i n : Nat} {e : α} (h : log[n]? = some e) (hi : i ≤ n) :
    between log i (n + 1) = between log i n ++ [e] := by
  obtain ⟨hlt, -⟩ := List.getElem?_eq_some_iff.mp h
  rw [between, List.take_add_one, h, Option.toList_some, List.drop_append_of_le_length, between]
  rw [List.length_take]
  omega

theorem between_eq_take (log : List α) (i j : Nat) : between log i j = (log.drop i).take (j - i) :=
  List.drop_take ..

theorem between_zero (log : List α) (j : Nat) : between log 0 j = log.take j := rfl

theorem between_append (log : List α) {i j k : Nat} (hij : i ≤ j) (hjk : j ≤ k) :
    between log i j ++ between log j k = between log i k := by
  have hdrop : log.drop j = (log.drop i).drop (j - i) := by
    rw [List.drop_drop, Nat.add_sub_cancel' hij]
  have hlen : k - i = (j - i) + (k - j) := by omega
  rw [between_eq_take, between_eq_take, between_eq_take, hdrop, hlen, List.take_add]

/-- The entries with ids in a range. -/
theorem filter_ids (log : List α) (i j : Nat) :
    (after log 0).filter (fun e => decide (i < e.1 ∧ e.1 ≤ j)) = (after log i).take (j - i) := by
  have hold : ((after log 0).take i).filter (fun e => decide (i < e.1 ∧ e.1 ≤ j)) = [] := by
    refine List.filter_eq_nil_iff.mpr fun e he => ?_
    have hle := id_le_of_mem_take he
    simp only [decide_eq_true_eq]
    omega
  have hin : ((after log i).take (j - i)).filter (fun e => decide (i < e.1 ∧ e.1 ≤ j)) =
      (after log i).take (j - i) := by
    refine List.filter_eq_self.mpr fun e he => ?_
    have hlt := (mem_after.mp (List.mem_of_mem_take he)).1
    have hmem : e.1 ∈ ((after log i).take (j - i)).map Prod.fst := List.mem_map_of_mem he
    rw [List.map_take, after_ids] at hmem
    obtain ⟨n, hn, hget⟩ := List.mem_take_iff_getElem.mp hmem
    rw [List.getElem_range'] at hget
    simp only [decide_eq_true_eq]
    omega
  have hlater : ((after log i).drop (j - i)).filter (fun e => decide (i < e.1 ∧ e.1 ≤ j)) = [] := by
    refine List.filter_eq_nil_iff.mpr fun e he => ?_
    rw [after_eq_drop, List.drop_drop, ← after_eq_drop] at he
    have hlt := (mem_after.mp he).1
    simp only [decide_eq_true_eq]
    omega
  conv => lhs; rw [← take_append_after log i]
  rw [List.filter_append, hold, List.nil_append]
  conv => lhs; rw [← List.take_append_drop (j - i) (after log i)]
  rw [List.filter_append, hin, hlater, List.append_nil]

theorem map_snd_take_after (log : List α) (i j : Nat) :
    ((after log i).take (j - i)).map Prod.snd = between log i j := by
  rw [List.map_take, after_eq_drop, List.map_drop, map_snd_after_zero, between_eq_take]

theorem between_grow {log log' : List α} {i j : Nat} (h : log <+: log')
    (hj : j ≤ log.length) : between log' i j = between log i j := by
  obtain ⟨new, rfl⟩ := h
  rw [between, List.take_append_of_le_length hj, between]

end TradePulse.Core.StreamLog
