import Mathlib.Data.Finset.Card
import Mathlib.Data.Finset.Dedup
import Mathlib.Data.List.Basic
import Mathlib.Data.List.Induction
import Mathlib.Tactic.Cases

/-! # First occurrences and joined keys

A list with the later entries under a known key left out, what the last entry
of a key says, and pairs of texts that are joined by a separator. -/
namespace TradePulse.Core

/-! ## First occurrences -/

section Firsts

variable {κ α : Type} [DecidableEq κ]

/-- Keep an entry unless its key is known. -/
def keepFirst (kept : List (κ × α)) (e : κ × α) : List (κ × α) :=
  if e.1 ∈ kept.map Prod.fst then kept else kept ++ [e]

/-- The first entry of each key, in their order. -/
def firsts (entries : List (κ × α)) : List (κ × α) := entries.foldl keepFirst []

theorem firsts_snoc (entries : List (κ × α)) (e : κ × α) :
    firsts (entries ++ [e]) = keepFirst (firsts entries) e := by
  rw [firsts, List.foldl_append]
  rfl

theorem firsts_snoc_known {entries : List (κ × α)} {e : κ × α}
    (h : e.1 ∈ (firsts entries).map Prod.fst) : firsts (entries ++ [e]) = firsts entries := by
  rw [firsts_snoc, keepFirst, if_pos h]

theorem firsts_snoc_new {entries : List (κ × α)} {e : κ × α}
    (h : e.1 ∉ (firsts entries).map Prod.fst) :
    firsts (entries ++ [e]) = firsts entries ++ [e] := by
  rw [firsts_snoc, keepFirst, if_neg h]

theorem mem_firsts_keys {entries : List (κ × α)} {k : κ} :
    k ∈ (firsts entries).map Prod.fst ↔ k ∈ entries.map Prod.fst := by
  induction entries using List.reverseRecOn with
  | nil => rfl
  | append_singleton entries e ih =>
    rw [List.map_append, List.mem_append, ← ih, List.map_singleton, List.mem_singleton]
    by_cases h : e.1 ∈ (firsts entries).map Prod.fst
    · rw [firsts_snoc_known h, iff_self_or]
      rintro rfl
      exact h
    · rw [firsts_snoc_new h, List.map_append, List.mem_append, List.map_singleton,
        List.mem_singleton]

theorem nodup_firsts_keys (entries : List (κ × α)) : ((firsts entries).map Prod.fst).Nodup := by
  induction entries using List.reverseRecOn with
  | nil => exact List.nodup_nil
  | append_singleton entries e ih =>
    by_cases h : e.1 ∈ (firsts entries).map Prod.fst
    · rwa [firsts_snoc_known h]
    · rw [firsts_snoc_new h, List.map_append, List.map_singleton]
      exact List.nodup_append.mpr ⟨ih, List.nodup_singleton _, fun a ha b hb hab =>
        h (List.mem_singleton.mp hb ▸ hab ▸ ha)⟩

/-- There are as many as there are distinct keys. -/
theorem length_firsts (entries : List (κ × α)) :
    (firsts entries).length = (entries.map Prod.fst).toFinset.card := by
  have hset : ((firsts entries).map Prod.fst).toFinset = (entries.map Prod.fst).toFinset := by
    ext k
    rw [List.mem_toFinset, List.mem_toFinset, mem_firsts_keys]
  rw [← hset, List.toFinset_card_of_nodup (nodup_firsts_keys entries), List.length_map]

theorem prefix_keepFirst (kept : List (κ × α)) (e : κ × α) : kept <+: keepFirst kept e := by
  rw [keepFirst]
  split
  · exact List.prefix_refl kept
  · exact List.prefix_append kept [e]

/-- More entries leave the first ones as they are, and add at most themselves. -/
theorem firsts_append (entries more : List (κ × α)) :
    firsts entries <+: firsts (entries ++ more) ∧
      (firsts (entries ++ more)).length ≤ (firsts entries).length + more.length := by
  induction more using List.reverseRecOn with
  | nil =>
    rw [List.append_nil]
    exact ⟨List.prefix_refl _, Nat.le_refl _⟩
  | append_singleton more e ih =>
    obtain ⟨hpre, hlen⟩ := ih
    rw [← List.append_assoc, firsts_snoc, List.length_append, List.length_singleton]
    refine ⟨hpre.trans (prefix_keepFirst _ e), ?_⟩
    rw [keepFirst]
    split
    · omega
    · rw [List.length_append, List.length_singleton]
      omega

theorem length_firsts_le (entries : List (κ × α)) : (firsts entries).length ≤ entries.length := by
  have hnil : (firsts ([] : List (κ × α))).length = 0 := rfl
  have hlen := (firsts_append [] entries).2
  rwa [List.nil_append, hnil, Nat.zero_add] at hlen

/-! ### By a key that the entries carry -/

/-- The first entry of each key, in their order. -/
def firstsBy (key : α → κ) (xs : List α) : List α :=
  (firsts (xs.map fun x => (key x, x))).map Prod.snd

section By

variable {key : α → κ} {xs : List α}

theorem mem_firsts_of_mem {entries : List (κ × α)} {e : κ × α} (h : e ∈ firsts entries) :
    e ∈ entries := by
  induction entries using List.reverseRecOn with
  | nil => exact h
  | append_singleton entries e' ih =>
    rw [firsts_snoc, keepFirst] at h
    split at h
    · exact List.mem_append_left _ (ih h)
    · exact (List.mem_append.mp h).elim (fun h => List.mem_append_left _ (ih h))
        (List.mem_append_right _)

/-- Its entries are under the keys that they carry. -/
theorem map_key_firstsBy : (firstsBy key xs).map key =
    (firsts (xs.map fun x => (key x, x))).map Prod.fst := by
  rw [firstsBy, List.map_map]
  refine List.map_congr_left fun e he => ?_
  obtain ⟨y, -, rfl⟩ := List.mem_map.mp (mem_firsts_of_mem he)
  rfl

theorem mem_firstsBy_keys {k : κ} : k ∈ (firstsBy key xs).map key ↔ k ∈ xs.map key := by
  rw [map_key_firstsBy, mem_firsts_keys, List.map_map]
  rfl

theorem nodup_firstsBy_keys : ((firstsBy key xs).map key).Nodup := by
  rw [map_key_firstsBy]
  exact nodup_firsts_keys _

theorem firstsBy_snoc_known {x : α} (h : key x ∈ xs.map key) :
    firstsBy key (xs ++ [x]) = firstsBy key xs := by
  rw [← mem_firstsBy_keys, map_key_firstsBy] at h
  rw [firstsBy, List.map_append, List.map_singleton, firsts_snoc_known h, firstsBy]

theorem firstsBy_snoc_new {x : α} (h : key x ∉ xs.map key) :
    firstsBy key (xs ++ [x]) = firstsBy key xs ++ [x] := by
  rw [← mem_firstsBy_keys, map_key_firstsBy] at h
  rw [firstsBy, List.map_append, List.map_singleton, firsts_snoc_new h, List.map_append, firstsBy]
  rfl

theorem firstsBy_append_known {more : List α} (h : ∀ x ∈ more, key x ∈ xs.map key) :
    firstsBy key (xs ++ more) = firstsBy key xs := by
  induction more using List.reverseRecOn with
  | nil => rw [List.append_nil]
  | append_singleton more x ih =>
    rw [← List.append_assoc, firstsBy_snoc_known, ih fun y hy => h y (List.mem_append_left _ hy)]
    rw [List.map_append]
    exact List.mem_append_left _ (h x (List.mem_append_right _ (List.mem_singleton.mpr rfl)))

/-- Later entries are kept or not by what is kept so far. -/
theorem firstsBy_append_congr {ys : List α} (h : firstsBy key xs = firstsBy key ys)
    (more : List α) : firstsBy key (xs ++ more) = firstsBy key (ys ++ more) := by
  induction more using List.reverseRecOn with
  | nil => rwa [List.append_nil, List.append_nil]
  | append_singleton more x ih =>
    rw [← List.append_assoc, ← List.append_assoc]
    have hkeys : key x ∈ (xs ++ more).map key ↔ key x ∈ (ys ++ more).map key := by
      rw [← mem_firstsBy_keys, ih, mem_firstsBy_keys]
    by_cases hx : key x ∈ (xs ++ more).map key
    · rw [firstsBy_snoc_known hx, firstsBy_snoc_known (hkeys.mp hx), ih]
    · rw [firstsBy_snoc_new hx, firstsBy_snoc_new (mt hkeys.mpr hx), ih]

/-- What comes later does not change the first ones. -/
theorem prefix_firstsBy {ys : List α} (h : xs <+: ys) : firstsBy key xs <+: firstsBy key ys := by
  obtain ⟨more, rfl⟩ := h
  rw [firstsBy, firstsBy, List.map_append]
  exact (firsts_append _ _).1.map Prod.snd

end By

end Firsts

/-! ## The last word on a key -/

section Last

variable {κ κ' α : Type} [DecidableEq κ] [DecidableEq κ']

/-- The value of the last entry under a key. -/
def lastOf (entries : List (κ × α)) (k : κ) : Option α :=
  ((entries.filter (·.1 = k)).getLast?).map Prod.snd

theorem lastOf_snoc (entries : List (κ × α)) (e : κ × α) (k : κ) :
    lastOf (entries ++ [e]) k = if e.1 = k then some e.2 else lastOf entries k := by
  rw [lastOf, List.filter_append]
  by_cases h : e.1 = k
  · rw [List.filter_cons, if_pos (decide_eq_true h), List.filter_nil, if_pos h,
      List.getLast?_append]
    rfl
  · rw [List.filter_cons_of_neg (by simpa using h), List.filter_nil, List.append_nil, if_neg h]
    rfl

theorem lastOf_eq_none {entries : List (κ × α)} {k : κ} :
    lastOf entries k = none ↔ ∀ e ∈ entries, e.1 ≠ k := by
  rw [lastOf, Option.map_eq_none_iff, List.getLast?_eq_none_iff, List.filter_eq_nil_iff]
  simp

/-- Where only one key is mapped to `f k`. -/
theorem lastOf_map {f : κ → κ'} {entries : List (κ × α)} {k : κ}
    (h : ∀ e ∈ entries, f e.1 = f k → e.1 = k) :
    lastOf (entries.map fun e => (f e.1, e.2)) (f k) = lastOf entries k := by
  have hfilter : ∀ e ∈ entries, decide (f e.1 = f k) = decide (e.1 = k) := fun e he =>
    decide_eq_decide.mpr ⟨h e he, fun heq => heq ▸ rfl⟩
  rw [lastOf, List.filter_map, List.getLast?_map, Option.map_map, lastOf]
  exact congrArg (fun l => Option.map Prod.snd (List.getLast? l)) (List.filter_congr hfilter)

end Last

/-! ## Joined keys -/

section Joined

variable {α : Type} {sep : α}

/-- Two texts with a separator between them. -/
def joined (sep : α) (pair : List α × List α) : List α := pair.1 ++ sep :: pair.2

/-- No separator in either text. -/
def Plain (sep : α) (pair : List α × List α) : Prop := sep ∉ pair.1 ∧ sep ∉ pair.2

instance [DecidableEq α] (sep : α) (pair : List α × List α) : Decidable (Plain sep pair) :=
  inferInstanceAs (Decidable (_ ∧ _))

/-- Only one pair is joined to the text of a plain one. -/
theorem Plain.joined_inj {p q : List α × List α} (hp : Plain sep p)
    (h : joined sep p = joined sep q) : p = q := by
  obtain ⟨hfst, -, hsnd⟩ := (List.append_cons_inj_of_notMem hp.1 hp.2).mp h
  exact Prod.ext hfst hsnd

/-- The text of a pair that is not plain is that of another such pair too. -/
theorem exists_joined_eq {p : List α × List α} (hp : ¬ Plain sep p) :
    ∃ q, q ≠ p ∧ ¬ Plain sep q ∧ joined sep q = joined sep p := by
  obtain ⟨a, b⟩ := p
  have hsep : sep ∈ a ∨ sep ∈ b := by
    rwa [Plain, not_and_or, not_not, not_not] at hp
  rcases hsep with ha | hb
  · obtain ⟨a₁, a₂, rfl⟩ := List.append_of_mem ha
    refine ⟨(a₁, a₂ ++ sep :: b), ?_, fun hq => hq.2 (by simp), by simp [joined]⟩
    intro heq
    have hlen := congrArg (List.length ∘ Prod.fst) heq
    simp at hlen
  · obtain ⟨b₁, b₂, rfl⟩ := List.append_of_mem hb
    refine ⟨(a ++ sep :: b₁, b₂), ?_, fun hq => hq.1 (by simp), by simp [joined]⟩
    intro heq
    have hlen := congrArg (List.length ∘ Prod.fst) heq
    simp at hlen

end Joined

end TradePulse.Core
