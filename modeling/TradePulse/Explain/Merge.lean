import TradePulse.Explain.Fallback

/-! # What `_merge` may touch

The dicts that `_merge` copies and writes, with the keys they have: the reply of
a language model gets at the prose and at nothing else. -/
namespace TradePulse.Explain.Llm

open TradePulse.Risk (Json PyFloat)

/-! ## Dicts -/

section Dicts

variable {α : Type}

/-- `d[key] = v`. -/
def setItem (key : String) (v : α) : List (String × α) → List (String × α)
  | [] => [(key, v)]
  | kv :: d => if kv.1 = key then (key, v) :: d else kv :: setItem key v d

theorem lookup_cons_ne {key : String} {kv : String × α} (h : key ≠ kv.1)
    (d : List (String × α)) : (kv :: d).lookup key = d.lookup key := by
  obtain ⟨k, v⟩ := kv
  have hbeq : (key == k) = false := by simpa using h
  rw [List.lookup_cons, hbeq]

end Dicts

/-- What the facts hold. -/
inductive Value (K : Type) where
  | text (s : PyStr)
  | figure (x : K)
  | list (xs : List (Value K))
  | dict (items : List (String × Value K))

abbrev Dict (K : Type) := List (String × Value K)

section Merge

variable {F K : Type}

/-! ## The facts -/

def Direction.word : Direction → String
  | .up => "up"
  | .down => "down"

def metricDict (m : ToldMetric K) : Value K :=
  .dict [("key", .text (py m.key)), ("label", .text (py m.label)), ("value", .figure m.value),
    ("plain", .text m.plain)]

def changeDict (c : ToldChange K) : Value K :=
  .dict [("key", .text (py c.key)), ("direction", .text (py (Direction.word c.direction))),
    ("delta", .figure c.delta), ("plain", .text c.plain)]

/-- What `explain_snapshot` returns. -/
def factsDict (told : Told K) : Dict K :=
  [("account_id", .text (py told.account_id)), ("computed_at", .text (py told.computed_at)),
    ("headline", .text told.headline), ("summary", .text told.summary),
    ("metrics", .list (told.metrics.map metricDict)),
    ("changes", .list (told.changes.map changeDict)),
    ("notes", .list (told.notes.map .text))]

/-! ## Merging -/

/-- `llm_metric_plain[key].strip()`, and `llm_change_plain[key].strip()`. -/
def plainOf (entries : List (Json F × PyStr)) (key : PyStr) : Option PyStr :=
  (entries.findRev? fun entry => text? entry.1 = some key).map fun entry => strip entry.2

/-- One turn of the loops over metrics and changes, each a dict with a text
under `key`. -/
def overlayItem (entries : List (Json F × PyStr)) : Value K → Except Raised (Value K)
  | .dict m => match m.lookup "key" with
    | some (.text key) => match plainOf entries key with
      | some plain => .ok (.dict (setItem "plain" (.text plain) m))
      | none => .ok (.dict m)
    | _ => .error .Other
  | _ => .error .Other

def overlayItems (entries : List (Json F × PyStr)) (items : Option (Value K)) :
    Except Raised (Value K) :=
  match items.getD (.list []) with
  | .list ms => .list <$> ms.mapM (overlayItem entries)
  | _ => .error .Other

def setText (key : String) (t : Option PyStr) (d : Dict K) : Dict K :=
  match t with
  | some t => setItem key (.text t) d
  | none => d

/-- `_merge`, as it is written. -/
def mergeDict (repr : Json F → PyStr) (facts : Dict K) (llm : List (String × Json F)) :
    Except Raised (Dict K) := do
  let out := setText "headline" ((prose llm "headline").map strip) facts
  let out := setText "summary" ((prose llm "summary").map strip) out
  let out := match llmNotes repr llm with
    | some notes => setItem "notes" (.list (notes.map .text)) out
    | none => out
  let llmMetricPlain ← llmPlain llm "metrics"
  let outMetrics ← overlayItems llmMetricPlain (facts.lookup "metrics")
  let out := setItem "metrics" outMetrics out
  let llmChangePlain ← llmPlain llm "changes"
  let outChanges ← overlayItems llmChangePlain (facts.lookup "changes")
  let out := setItem "changes" outChanges out
  return setItem "mode" (.text (py "llm")) out

/-! ## The property -/

/-- A text of the facts, or prose that the reply has under the same key. -/
def FactsOrProse (facts out : Dict K) (llm : List (String × Json F)) (key : String) : Prop :=
  out.lookup key = facts.lookup key ∨ ∃ t, (llm.lookup key).bind text? = some t ∧ strip t ≠ [] ∧
    out.lookup key = some (.text (strip t))

/-- An entry of which at most the text under `plain` is another: that of an
object that the reply has under `field` with the same key. -/
def OnlyPlain (llm : List (String × Json F)) (field : String) (m m' : Value K) : Prop :=
  ∃ d d', m = .dict d ∧ m' = .dict d' ∧ d'.map Prod.fst = d.map Prod.fst ∧
    (∀ key, key ≠ "plain" → d'.lookup key = d.lookup key) ∧
    (d'.lookup "plain" = d.lookup "plain" ∨ ∃ items kvs key t,
      iterate ((llm.lookup field).getD (.arr [])) = .ok items ∧ .obj kvs ∈ items ∧
        d.lookup "key" = some (.text key) ∧ (kvs.lookup "key").bind text? = some key ∧
        (kvs.lookup "plain").bind text? = some t ∧ strip t ≠ [] ∧
        d'.lookup "plain" = some (.text (strip t)))

/-- The same entries in the same order, but for their prose. -/
def SameEntries (facts out : Dict K) (llm : List (String × Json F)) (field : String) : Prop :=
  ∃ ms ms', facts.lookup field = some (.list ms) ∧ out.lookup field = some (.list ms') ∧
    List.Forall₂ (OnlyPlain llm field) ms ms'

/-- The facts, with at most their prose replaced. -/
structure OnlyProse (facts out : Dict K) (llm : List (String × Json F)) : Prop where
  keys : out.map Prod.fst = facts.map Prod.fst ++ ["mode"]
  account_id : out.lookup "account_id" = facts.lookup "account_id"
  computed_at : out.lookup "computed_at" = facts.lookup "computed_at"
  metrics : SameEntries facts out llm "metrics"
  changes : SameEntries facts out llm "changes"
  headline : FactsOrProse facts out llm "headline"
  summary : FactsOrProse facts out llm "summary"
  notes : out.lookup "notes" = facts.lookup "notes" ∨
    ∃ ns : List PyStr, out.lookup "notes" = some (.list (ns.map .text)) ∧ ∀ t ∈ ns, strip t ≠ []
  mode : out.lookup "mode" = some (.text (py "llm"))

/-- The last plain text that is not blank, of the objects with this key. -/
def lastPlain (llm : List (String × Json F)) (field : String) (key : PyStr) : Option PyStr :=
  (((entries llm field).filter fun entry => text? entry.1 = some key).getLast?).map Prod.snd

/-- Two replies with the same prose for these facts. -/
structure SameProse (n : Backend.Narrative K) (llm llm' : List (String × Json F)) : Prop where
  headline : llm.lookup "headline" = llm'.lookup "headline"
  summary : llm.lookup "summary" = llm'.lookup "summary"
  notes : llm.lookup "notes" = llm'.lookup "notes"
  metrics : ∀ m ∈ n.metrics,
    lastPlain llm "metrics" (py m.key) = lastPlain llm' "metrics" (py m.key)
  changes : ∀ c ∈ n.changes,
    lastPlain llm "changes" (py c.key) = lastPlain llm' "changes" (py c.key)

/-! ## What the dicts become -/

theorem mapM_ok {α β γ : Type} {f : β → Except Raised γ} {g : α → β} {h : α → γ}
    (hf : ∀ x, f (g x) = .ok (h x)) (xs : List α) : (xs.map g).mapM f = .ok (xs.map h) := by
  induction xs with
  | nil => rfl
  | cons x xs ih =>
    rw [List.map_cons, List.mapM_cons, hf, ih]
    rfl

theorem overlayItem_metric (entries : List (Json F × PyStr)) (m : ToldMetric K) :
    overlayItem entries (metricDict m) =
      .ok (metricDict { m with plain := (plainFor entries m.key).getD m.plain }) := by
  show (match plainOf entries (py m.key) with | some plain => _ | none => _) = _
  rw [show plainOf entries (py m.key) = plainFor entries m.key from rfl]
  cases plainFor entries m.key with
  | none => rfl
  | some plain => rfl

theorem overlayItem_change (entries : List (Json F × PyStr)) (c : ToldChange K) :
    overlayItem entries (changeDict c) =
      .ok (changeDict { c with plain := (plainFor entries c.key).getD c.plain }) := by
  show (match plainOf entries (py c.key) with | some plain => _ | none => _) = _
  rw [show plainOf entries (py c.key) = plainFor entries c.key from rfl]
  cases plainFor entries c.key with
  | none => rfl
  | some plain => rfl

/-- On the dicts of the facts, `_merge` does what `merge` says. -/
theorem mergeDict_eq (repr : Json F → PyStr) (facts : Told K) (llm : List (String × Json F)) :
    mergeDict repr (factsDict facts) llm =
      (merge repr facts llm).map fun told => factsDict told ++ [("mode", .text (py "llm"))] := by
  have hmetrics : ∀ entries : List (Json F × PyStr),
      overlayItems entries ((factsDict facts).lookup "metrics") = .ok (.list (facts.metrics.map
        fun m => metricDict { m with plain := (plainFor entries m.key).getD m.plain })) := by
    intro entries
    show Value.list <$> (facts.metrics.map metricDict).mapM (overlayItem entries) = _
    rw [mapM_ok (overlayItem_metric entries)]
    rfl
  have hchanges : ∀ entries : List (Json F × PyStr),
      overlayItems entries ((factsDict facts).lookup "changes") = .ok (.list (facts.changes.map
        fun c => changeDict { c with plain := (plainFor entries c.key).getD c.plain })) := by
    intro entries
    show Value.list <$> (facts.changes.map changeDict).mapM (overlayItem entries) = _
    rw [mapM_ok (overlayItem_change entries)]
    rfl
  rw [mergeDict, merge]
  cases llmPlain llm "metrics" with
  | error e => rfl
  | ok metricPlain =>
    cases llmPlain llm "changes" with
    | error e =>
      simp only [bind, Except.bind, hmetrics]
      rfl
    | ok changePlain =>
      simp only [bind, Except.bind, hmetrics, hchanges]
      cases (prose llm "headline").map strip <;> cases (prose llm "summary").map strip <;>
        cases llmNotes repr llm <;>
          simp [setText, factsDict, setItem, Except.map, pure, Except.pure, Function.comp_def]

theorem mergeDict_ok {repr : Json F → PyStr} {facts : Told K} {llm : List (String × Json F)}
    {out : Dict K} (h : mergeDict repr (factsDict facts) llm = .ok out) :
    out = factsDict (overlay repr facts llm) ++ [("mode", .text (py "llm"))] := by
  rw [mergeDict_eq] at h
  rcases merge_cases repr facts llm with ⟨-, hok⟩ | ⟨-, herr⟩
  · rw [hok] at h
    exact (Except.ok.inj h).symm
  · rw [herr] at h
    cases h

/-! ## What the prose can be -/

theorem prose_eq_some {kvs : List (String × Json F)} {key : String} {t : PyStr}
    (h : prose kvs key = some t) : (kvs.lookup key).bind text? = some t ∧ strip t ≠ [] := by
  rw [prose, Option.filter_eq_some_iff] at h
  exact ⟨h.1, of_decide_eq_true h.2⟩

theorem entryOf_eq_some {m : Json F} {entry : Json F × PyStr} (h : entryOf m = some entry) :
    ∃ kvs, m = .obj kvs ∧ entry.1 = (kvs.lookup "key").getD .null ∧
      prose kvs "plain" = some entry.2 := by
  cases m with
  | obj kvs =>
    rw [entryOf, Option.map_eq_some_iff] at h
    obtain ⟨plain, hplain, rfl⟩ := h
    exact ⟨kvs, rfl, rfl, hplain⟩
  | _ => cases h

theorem bind_text {v : Option (Json F)} {t : PyStr} (h : text? (v.getD .null) = some t) :
    v.bind text? = some t := by
  cases v with
  | none => cases h
  | some v => exact h

/-- The prose for a key is that of an object with the key. -/
theorem plainFor_eq_some {llm : List (String × Json F)} {field key : String} {plain : PyStr}
    (h : plainFor (entries llm field) key = some plain) : ∃ items kvs t,
      iterate ((llm.lookup field).getD (.arr [])) = .ok items ∧ .obj kvs ∈ items ∧
        (kvs.lookup "key").bind text? = some (py key) ∧
        (kvs.lookup "plain").bind text? = some t ∧ strip t ≠ [] ∧ plain = strip t := by
  rw [plainFor, Option.map_eq_some_iff] at h
  obtain ⟨entry, hfind, rfl⟩ := h
  rw [List.findRev?_eq_find?_reverse] at hfind
  have hkey : text? entry.1 = some (py key) := by simpa using List.find?_some hfind
  have hmem := List.mem_reverse.mp (List.mem_of_find?_eq_some hfind)
  rw [entries] at hmem
  split at hmem
  · rename_i items hitems
    obtain ⟨m, hm, hentry⟩ := List.mem_filterMap.mp hmem
    obtain ⟨kvs, rfl, hfst, hprose⟩ := entryOf_eq_some hentry
    obtain ⟨htext, hblank⟩ := prose_eq_some hprose
    exact ⟨items, kvs, entry.2, hitems, hm, bind_text (hfst ▸ hkey), htext, hblank, rfl⟩
  · cases hmem

/-- The last entry for a key is the one taken. -/
theorem plainFor_eq_lastPlain (llm : List (String × Json F)) (field key : String) :
    plainFor (entries llm field) key = (lastPlain llm field (py key)).map strip := by
  rw [plainFor, lastPlain, List.getLast?_filter, List.findRev?_eq_find?_reverse, Option.map_map]
  rfl

theorem llmNotes_eq_some {repr : Json F → PyStr} {llm : List (String × Json F)}
    {ns : List PyStr} (h : llmNotes repr llm = some ns) : ∀ t ∈ ns, strip t ≠ [] := by
  rw [llmNotes] at h
  split at h
  · cases h
    intro t ht
    exact of_decide_eq_true (List.mem_filter.mp ht).2
  · cases h

/-- An entry whose last item is the text under `plain`. -/
theorem onlyPlain_last (llm : List (String × Json F)) (field : String) {key : String}
    {d : Dict K} (hkey : d.lookup "key" = some (.text (py key))) (hplain : d.lookup "plain" = none)
    (plain : PyStr) : OnlyPlain llm field (.dict (d ++ [("plain", .text plain)]))
      (.dict (d ++ [("plain", .text ((plainFor (entries llm field) key).getD plain))])) := by
  have hlast : ∀ t : PyStr, (d ++ [("plain", Value.text t)]).lookup "plain" = some (.text t) := by
    intro t
    rw [List.lookup_append, hplain, List.lookup_cons_self]
    rfl
  refine ⟨_, _, rfl, rfl, by rw [List.map_append, List.map_append]; rfl, ?_, ?_⟩
  · intro k hk
    rw [List.lookup_append, List.lookup_append, lookup_cons_ne hk, lookup_cons_ne hk]
  · rw [hlast, hlast]
    cases h : plainFor (entries llm field) key with
    | none => exact Or.inl rfl
    | some p =>
      obtain ⟨items, kvs, t, hitems, hm, hk, ht, hblank, rfl⟩ := plainFor_eq_some h
      refine Or.inr ⟨items, kvs, py key, t, hitems, hm, ?_, hk, ht, hblank, rfl⟩
      rw [List.lookup_append, hkey]
      rfl

theorem factsOrProse {facts out : Dict K} {llm : List (String × Json F)} {key : String}
    (plain : PyStr) (hfacts : facts.lookup key = some (.text plain))
    (hout : out.lookup key = some (.text (((prose llm key).map strip).getD plain))) :
    FactsOrProse facts out llm key := by
  cases h : prose llm key with
  | none =>
    rw [h] at hout
    exact Or.inl (hout.trans hfacts.symm)
  | some t =>
    rw [h] at hout
    obtain ⟨htext, hblank⟩ := prose_eq_some h
    exact Or.inr ⟨t, htext, hblank, hout⟩

theorem forall₂_map {α β : Type} {R : β → β → Prop} {g h : α → β} (hR : ∀ x, R (g x) (h x))
    (xs : List α) : List.Forall₂ R (xs.map g) (xs.map h) := by
  rw [List.forall₂_map_left_iff, List.forall₂_map_right_iff, List.forall₂_same]
  exact fun x _ => hR x

theorem onlyProse_overlay (repr : Json F → PyStr) (facts : Told K)
    (llm : List (String × Json F)) : OnlyProse (factsDict facts)
      (factsDict (overlay repr facts llm) ++ [("mode", .text (py "llm"))]) llm where
  keys := by rw [List.map_append]; rfl
  account_id := rfl
  computed_at := rfl
  metrics := by
    refine ⟨_, (overlay repr facts llm).metrics.map metricDict, rfl, rfl, ?_⟩
    rw [overlay, List.map_map]
    refine forall₂_map (fun m => ?_) facts.metrics
    exact onlyPlain_last llm "metrics" (d := [("key", .text (py m.key)),
      ("label", .text (py m.label)), ("value", .figure m.value)]) rfl rfl m.plain
  changes := by
    refine ⟨_, (overlay repr facts llm).changes.map changeDict, rfl, rfl, ?_⟩
    rw [overlay, List.map_map]
    refine forall₂_map (fun c => ?_) facts.changes
    exact onlyPlain_last llm "changes" (d := [("key", .text (py c.key)),
      ("direction", .text (py (Direction.word c.direction))), ("delta", .figure c.delta)])
      rfl rfl c.plain
  headline := factsOrProse facts.headline rfl rfl
  summary := factsOrProse facts.summary rfl rfl
  notes := by
    cases h : llmNotes repr llm with
    | none =>
      left
      show some (Value.list (((llmNotes repr llm).getD facts.notes).map .text)) = _
      rw [h]
      rfl
    | some ns =>
      refine Or.inr ⟨ns, ?_, llmNotes_eq_some h⟩
      show some (Value.list (((llmNotes repr llm).getD facts.notes).map .text)) = _
      rw [h]
      rfl
  mode := rfl

/-- What is not prose for the facts does not show. -/
theorem overlay_congr {repr : Json F → PyStr} {n : Backend.Narrative K}
    {llm llm' : List (String × Json F)} (h : SameProse n llm llm') :
    overlay repr (factsOf n) llm = overlay repr (factsOf n) llm' := by
  have hprose : ∀ key, llm.lookup key = llm'.lookup key → prose llm key = prose llm' key := by
    intro key hkey
    rw [prose, prose, hkey]
  have hnotes : llmNotes repr llm = llmNotes repr llm' := by
    rw [llmNotes, llmNotes, h.notes]
  have hmetrics : (overlay repr (factsOf n) llm).metrics =
      (overlay repr (factsOf n) llm').metrics := by
    simp only [overlay, factsOf, List.map_map]
    refine List.map_congr_left fun m hm => ?_
    simp only [Function.comp_apply, plainFor_eq_lastPlain, h.metrics m hm]
  have hchanges : (overlay repr (factsOf n) llm).changes =
      (overlay repr (factsOf n) llm').changes := by
    simp only [overlay, factsOf, List.map_map]
    refine List.map_congr_left fun c hc => ?_
    simp only [Function.comp_apply, plainFor_eq_lastPlain, h.changes c hc]
  simp only [overlay] at hmetrics hchanges ⊢
  rw [hprose _ h.headline, hprose _ h.summary, hnotes, hmetrics, hchanges]

/-- The reply replaces prose, and only its prose for the facts matters: for the
narrative of any snapshot, in whatever arithmetic its figures are. -/
theorem llm_replaces_only_prose (repr : Json F → PyStr) (n : Backend.Narrative K)
    (llm : List (String × Json F)) :
    (∀ out, mergeDict repr (factsDict (factsOf n)) llm = .ok out →
      OnlyProse (factsDict (factsOf n)) out llm) ∧
    ∀ llm', SameProse n llm llm' →
      ∀ out out', mergeDict repr (factsDict (factsOf n)) llm = .ok out →
        mergeDict repr (factsDict (factsOf n)) llm' = .ok out' → out = out' := by
  constructor
  · intro out hout
    rw [mergeDict_ok hout]
    exact onlyProse_overlay repr (factsOf n) llm
  · intro llm' hsame out out' hout hout'
    rw [mergeDict_ok hout, mergeDict_ok hout', overlay_congr hsame]

end Merge

/-- A narrative with one metric. -/
def inGain : Backend.Narrative ℚ where
  account_id := "acct_123"
  computed_at := "2026-02-03T10:00:00Z"
  headline := ⟨.up, "Up."⟩
  summary := whatItMeans
  metrics := [⟨"pnl", "P&L", 5, ⟨.gain, "A gain."⟩⟩]
  changes := []
  notes := []

def reworded : List (String × Json ℚ) :=
  [("headline", .str " Well done "),
    ("metrics", .arr [.obj [("key", .str "pnl"), ("plain", .str "You gain.")]])]

/-- The same prose, with other figures, an entry too many and an overruled one. -/
def embellished : List (String × Json ℚ) :=
  [("mode", .str "rule"), ("headline", .str " Well done "),
    ("metrics", .arr [.obj [("key", .str "var"), ("plain", .str "None.")],
      .obj [("key", .str "pnl"), ("plain", .str "You lose.")],
      .obj [("plain", .str "You gain."), ("value", .int 900), ("key", .str "pnl")]])]

/-- The embellishments do not show. -/
theorem llm_replaces_only_prose_embellished : ∃ out,
    mergeDict (fun _ => []) (factsDict (factsOf inGain)) reworded = .ok out ∧
      mergeDict (fun _ => []) (factsDict (factsOf inGain)) embellished = .ok out ∧
      OnlyProse (factsDict (factsOf inGain)) out reworded := by
  obtain ⟨out, hout⟩ : ∃ out,
      mergeDict (fun _ => []) (factsDict (factsOf inGain)) reworded = .ok out := ⟨_, rfl⟩
  obtain ⟨out', hout'⟩ : ∃ out,
      mergeDict (fun _ => []) (factsDict (factsOf inGain)) embellished = .ok out := ⟨_, rfl⟩
  have hsame : SameProse inGain reworded embellished :=
    { headline := by rfl
      summary := by rfl
      notes := by rfl
      metrics := by decide
      changes := by decide }
  have hmerge := llm_replaces_only_prose (fun _ => []) inGain reworded
  refine ⟨out, hout, ?_, hmerge.1 out hout⟩
  rw [hmerge.2 embellished hsame out out' hout hout']
  exact hout'

end TradePulse.Explain.Llm
