import Mathlib.Data.List.Nodup

/-! # Rows of a table

An `UPDATE` changes the rows that have a key where they stand; an `INSERT`
appends a row whose key no other has. What a later lookup or selection finds. -/
namespace TradePulse.Core

section Rows

variable {κ α : Type} [DecidableEq κ] {key : α → κ} {f : α → α} {k : κ}

theorem map_key_update (hf : ∀ r, key r = k → key (f r) = k) (rows : List α) :
    (rows.map fun r => if key r = k then f r else r).map key = rows.map key := by
  rw [List.map_map]
  refine List.map_congr_left fun r _ => ?_
  rw [Function.comp_apply]
  split
  · rename_i hr
    rw [hf r hr, hr]
  · rfl

theorem update_of_not_mem {rows : List α} (h : k ∉ rows.map key) :
    (rows.map fun r => if key r = k then f r else r) = rows := by
  refine (List.map_congr_left fun r hr => if_neg fun hkey => h ?_).trans (List.map_id _)
  exact hkey ▸ List.mem_map_of_mem hr

/-- A selection that the update moves no row into or out of. -/
theorem filter_update {p : α → Bool} (hp : ∀ r, key r = k → p (f r) = p r) (rows : List α) :
    (rows.map fun r => if key r = k then f r else r).filter p =
      (rows.filter p).map fun r => if key r = k then f r else r := by
  rw [List.filter_map]
  refine congrArg (List.map _) (List.filter_congr fun r _ => ?_)
  rw [Function.comp_apply]
  split
  · exact hp r ‹_›
  · rfl

/-- A selection that has none of the updated rows. -/
theorem filter_update_of_not {p : α → Bool} (hp : ∀ r, key r = k → p (f r) = p r)
    (hk : ∀ r, key r = k → p r = false) (rows : List α) :
    (rows.map fun r => if key r = k then f r else r).filter p = rows.filter p := by
  rw [filter_update hp]
  refine update_of_not_mem fun hmem => ?_
  obtain ⟨r, hr, hkey⟩ := List.mem_map.mp hmem
  exact Bool.false_ne_true ((hk r hkey).symm.trans (List.mem_filter.mp hr).2)

/-- The first row of such a selection. -/
theorem find?_update {p : α → Bool} (hp : ∀ r, key r = k → p (f r) = p r) (rows : List α) :
    (rows.map fun r => if key r = k then f r else r).find? p =
      (rows.find? p).map fun r => if key r = k then f r else r := by
  rw [← List.head?_filter, ← List.head?_filter, filter_update hp, List.head?_map]

/-- The lookup of a key after the update of a row. -/
theorem find?_key_update (hf : ∀ r, key r = k → key (f r) = k) (rows : List α) (i : κ) :
    (rows.map fun r => if key r = k then f r else r).find? (key · = i) =
      if i = k then (rows.find? (key · = k)).map f else rows.find? (key · = i) := by
  rw [find?_update fun r hr => by rw [hf r hr, hr]]
  split
  · rename_i hik
    subst hik
    refine Option.map_congr fun r hr => if_pos ?_
    simpa using List.find?_some hr
  · rename_i hik
    refine (Option.map_congr fun r hr => if_neg fun hrk => hik ?_).trans Option.map_id'
    have hri : key r = i := by simpa using List.find?_some hr
    exact hri.symm.trans hrk

theorem find?_append_of_some {p : α → Bool} {rows new : List α} {r : α}
    (h : rows.find? p = some r) : (rows ++ new).find? p = some r := by
  rw [List.find?_append, h, Option.some_or]

theorem find?_append_fresh {p : α → Bool} {rows : List α} {row : α}
    (hrows : ∀ r ∈ rows, p r = false) (hrow : p row = true) :
    (rows ++ [row]).find? p = some row := by
  rw [List.find?_append, List.find?_eq_none.mpr fun r hr => Bool.not_eq_true _ ▸ hrows r hr,
    Option.none_or, List.find?_cons_of_pos hrow]

/-- The lookup of a key after the insertion of a row with a new one. -/
theorem find?_insert {rows : List α} {row : α} (hnew : ∀ r ∈ rows, key r ≠ key row) (i : κ) :
    (rows ++ [row]).find? (key · = i) =
      if i = key row then some row else rows.find? (key · = i) := by
  split
  · rename_i hi
    subst hi
    exact find?_append_fresh (fun r hr => decide_eq_false (hnew r hr)) (decide_eq_true rfl)
  · rename_i hi
    rw [List.find?_append, List.find?_singleton, if_neg (mt of_decide_eq_true (Ne.symm hi)),
      Option.or_none]

end Rows

theorem nodup_map_snoc {κ α : Type} {key : α → κ} {rows : List α} {row : α} (h : (rows.map key).Nodup)
    (hnew : key row ∉ rows.map key) : ((rows ++ [row]).map key).Nodup := by
  rw [List.map_append, List.map_singleton]
  exact List.nodup_append.mpr ⟨h, List.nodup_singleton _, fun a ha b hb hab =>
    hnew (List.mem_singleton.mp hb ▸ hab ▸ ha)⟩

end TradePulse.Core
