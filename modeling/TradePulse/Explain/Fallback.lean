import TradePulse.Explain.Llm
import TradePulse.Risk.Exact

/-! # When LLM mode keeps serving

Most of what can go wrong in the call is caught and falls back to the facts.
What is not: a timeout that is no number, an exception of another class from the
HTTP client or the parser, a reply with nothing to choose from, and prose that
UTF-8 has no bytes for. -/
namespace TradePulse.Explain.Llm

open TradePulse.Risk (Json PyFloat)

/-! ## What goes into an answer -/

section Answers

variable {K : Type}

def Told.texts (told : Told K) : List PyStr :=
  told.headline :: told.summary :: (told.metrics.map (·.plain) ++ told.changes.map (·.plain) ++
    told.notes)

def Told.figures (told : Told K) : List K :=
  told.metrics.map (·.value) ++ told.changes.map (·.delta)

/-- What an answer needs for its JSON to have bytes: Starlette's response allows
no NaN and no infinity, and encodes the text as UTF-8. -/
structure Writable (finite : K → Prop) (told : Told K) : Prop where
  texts : ∀ t ∈ told.texts, encodable t = true
  figures : ∀ x ∈ told.figures, finite x

theorem encodable_py (s : String) : encodable (py s) = true := by
  rw [encodable, List.all_eq_true]
  intro c hc
  obtain ⟨ch, -, rfl⟩ := List.mem_map.mp hc
  have hvalid := ch.valid
  simp only [UInt32.isValidChar, Nat.isValidChar] at hvalid
  have hval : ch.val.toNat = ch.toNat := rfl
  rw [hval] at hvalid
  simp only [isSurrogate, Bool.not_eq_true', Bool.and_eq_false_iff, decide_eq_false_iff_not]
  omega

theorem factsOf_texts (n : Backend.Narrative K) : ∀ t ∈ (factsOf n).texts, encodable t = true := by
  intro t ht
  simp only [factsOf, Told.texts, List.mem_cons, List.mem_append, List.map_map,
    List.mem_map, Function.comp_apply] at ht
  rcases ht with rfl | rfl | (⟨m, -, rfl⟩ | ⟨c, -, rfl⟩) | ⟨s, -, rfl⟩ <;> exact encodable_py _

end Answers

/-! ## The condition -/

section Condition

variable {F K : Type}

/-- An outcome that the handlers catch, or that goes on as `next` has it. -/
def Fine {α : Type} (outcome : Except Raised α) (next : α → Prop) : Prop :=
  match outcome with
  | .error e => caughtInCall e = true
  | .ok a => next a

/-- A reply whose `choices` are an empty array or an empty string. -/
def NothingToChoose (parsed : Json F) : Prop :=
  ∃ reply choices, parsed = .obj reply ∧ reply.lookup "choices" = some choices ∧
    (choices = .arr [] ∨ text? choices = some [])

/-- The content of the first choice's message is this string. -/
def HasContent (parsed : Json F) (content : PyStr) : Prop :=
  ∃ reply choice others message v, parsed = .obj reply ∧
    reply.lookup "choices" = some (.arr (.obj choice :: others)) ∧
    choice.lookup "message" = some (.obj message) ∧ message.lookup "content" = some v ∧
    text? v = some content

/-- The key and the prose of an object that has prose. -/
def entryOf : Json F → Option (Json F × PyStr)
  | .obj kvs => (prose kvs "plain").map fun plain => ((kvs.lookup "key").getD .null, plain)
  | _ => none

/-- The field, if it is there, can be iterated, and its keys can be hashed. -/
def MergeableField (llm : List (String × Json F)) (field : String) : Prop :=
  ∃ items, iterate ((llm.lookup field).getD (.arr [])) = .ok items ∧
    ∀ m ∈ items, ∀ entry, entryOf m = some entry → hashable entry.1 = true

def Mergeable (llm : List (String × Json F)) : Prop :=
  MergeableField llm "metrics" ∧ MergeableField llm "changes"

def entries (llm : List (String × Json F)) (field : String) : List (Json F × PyStr) :=
  match iterate ((llm.lookup field).getD (.arr [])) with
  | .ok items => items.filterMap entryOf
  | .error _ => []

/-- The prose that replaces the narrative's. -/
def taken (repr : Json F → PyStr) (n : Backend.Narrative K) (llm : List (String × Json F)) :
    List PyStr :=
  ((prose llm "headline").map strip).toList ++ ((prose llm "summary").map strip).toList ++
    n.metrics.filterMap (fun m => plainFor (entries llm "metrics") m.key) ++
    n.changes.filterMap (fun c => plainFor (entries llm "changes") c.key) ++
    (llmNotes repr llm).getD []

variable [PyFloat F] (getenv : String → Option PyStr)
  (urlopen : Request F → Except Raised (List UInt8)) (loads : PyStr → Except Raised (Json F))
  (repr : Json F → PyStr) (finite : K → Prop) (n : Backend.Narrative K)

/-- The environment, the narrative and the reply under which LLM mode serves. -/
structure Serves : Prop where
  timeout : ∃ x : F, toFloat (timeoutMs getenv) = .ok x
  figures : ∀ x ∈ (factsOf n).figures, finite x
  reply : ∀ cfg, config getenv = .ok cfg → isEnabled getenv = true → apiKey getenv ≠ [] →
    Fine (urlopen (request cfg (factsOf n))) fun body =>
      ∀ raw, Core.Utf8.decodeStrict body = some raw →
        Fine (loads (raw.map Char.toNat)) fun parsed => ¬ NothingToChoose parsed ∧
          ∀ content, HasContent parsed content → Fine (loads content) fun llm =>
            ∀ kvs, llm = .obj kvs → Mergeable kvs → ∀ t ∈ taken repr n kvs, encodable t = true

/-- Nothing is raised, what comes back is no narrative or an LLM one, and the
endpoint answers. -/
structure NeverBreaks (render : Told K → Bool) : Prop where
  returns : ∃ r, generateLlmNarrative repr getenv urlopen loads (factsOf n) = .ok r ∧
    ∀ told, r = some told → told.mode = .llm
  status : riskExplain repr getenv urlopen loads render (some n) (some "llm") = 200

end Condition

/-! ## Reading the reply -/

section Reply

variable {F α β : Type}

theorem fine_bind {x : Except Raised α} {f : α → Except Raised β} {next : β → Prop} :
    Fine (x >>= f) next ↔ Fine x fun a => Fine (f a) next := by
  cases x with
  | error e => exact Iff.rfl
  | ok a => exact Iff.rfl

theorem fine_congr {x : Except Raised α} {p q : α → Prop} (h : ∀ a, x = .ok a → (p a ↔ q a)) :
    Fine x p ↔ Fine x q := by
  cases x with
  | error e => exact Iff.rfl
  | ok a => exact h a rfl

theorem item_ok {key : String} {v w : Json F} :
    item key v = .ok w ↔ ∃ kvs, v = .obj kvs ∧ kvs.lookup key = some w := by
  cases v with
  | obj kvs =>
    rw [item]
    cases h : kvs.lookup key with
    | some x => simp [h]
    | none => simp [h]
  | _ => simp [item]

theorem item_error {key : String} {v : Json F} {e : Raised} (h : item key v = .error e) :
    caughtInCall e = true := by
  cases v with
  | obj kvs =>
    rw [item] at h
    split at h
    · cases h
    · cases h
      rfl
  | _ =>
    cases h
    rfl

theorem first_ok {v x : Json F} (h : first v = .ok x) :
    (∃ others, v = .arr (x :: others)) ∨ ∃ c, x = .surrogates [c] := by
  unfold first at h
  split at h <;> try cases h
  · exact Or.inl ⟨_, rfl⟩
  · split at h
    · cases h
      exact Or.inr ⟨_, rfl⟩
    · cases h
  · exact Or.inr ⟨_, rfl⟩

theorem first_error {v : Json F} {e : Raised} (h : first v = .error e)
    (hsome : ¬ (v = .arr [] ∨ text? v = some [])) : caughtInCall e = true := by
  unfold first at h
  split at h <;> try cases h
  · exact absurd (Or.inl rfl) hsome
  · rename_i s
    split at h
    · cases h
    · rename_i hs
      exact absurd (Or.inr (congrArg some hs)) hsome
  · exact absurd (Or.inr rfl) hsome
  all_goals rfl

theorem first_nothing {v : Json F} (h : v = .arr [] ∨ text? v = some []) :
    first v = .error .IndexError := by
  rcases h with rfl | h
  · rfl
  · cases v with
    | str s =>
      have hs : py s = [] := Option.some.inj h
      rw [first, hs]
    | surrogates codePoints =>
      have hs : codePoints = [] := Option.some.inj h
      rw [hs]
      rfl
    | _ => cases h

theorem contentOf_ok {parsed v : Json F} : contentOf parsed = .ok v ↔
    ∃ choices, item "choices" parsed = .ok choices ∧ ∃ choice, first choices = .ok choice ∧
      ∃ message, item "message" choice = .ok message ∧ item "content" message = .ok v := by
  simp only [contentOf, Core.except_bind_ok]

theorem hasContent_iff {parsed : Json F} {content : PyStr} :
    HasContent parsed content ↔ ∃ v, contentOf parsed = .ok v ∧ text? v = some content := by
  constructor
  · intro h
    obtain ⟨reply, choice, others, message, v, rfl, hchoices, hmessage, hcontent, htext⟩ := h
    refine ⟨v, contentOf_ok.mpr ⟨_, item_ok.mpr ⟨_, rfl, hchoices⟩, _, rfl, _,
      item_ok.mpr ⟨_, rfl, hmessage⟩, item_ok.mpr ⟨_, rfl, hcontent⟩⟩, htext⟩
  · intro h
    obtain ⟨v, hv, htext⟩ := h
    obtain ⟨choices, hchoices, choice, hfirst, message, hmessage, hcontent⟩ := contentOf_ok.mp hv
    obtain ⟨reply, rfl, hreply⟩ := item_ok.mp hchoices
    obtain ⟨kvs, rfl, hkvs⟩ := item_ok.mp hmessage
    obtain ⟨told, rfl, htold⟩ := item_ok.mp hcontent
    rcases first_ok hfirst with ⟨others, rfl⟩ | ⟨c, hc⟩
    · exact ⟨reply, kvs, others, told, v, rfl, hreply, hkvs, htold, htext⟩
    · cases hc

theorem contentOf_nothing {parsed : Json F} (h : NothingToChoose parsed) :
    contentOf parsed = .error .IndexError := by
  obtain ⟨reply, choices, rfl, hchoices, hnothing⟩ := h
  rw [contentOf, item_ok.mpr ⟨reply, rfl, hchoices⟩]
  show (first choices >>= fun _ => _) = _
  rw [first_nothing hnothing]
  rfl

theorem contentOf_error {parsed : Json F} {e : Raised} (h : contentOf parsed = .error e)
    (hsome : ¬ NothingToChoose parsed) : caughtInCall e = true := by
  rw [contentOf] at h
  cases hchoices : item "choices" parsed with
  | error e' =>
    rw [hchoices] at h
    cases h
    exact item_error hchoices
  | ok choices =>
    rw [hchoices] at h
    obtain ⟨reply, hreply, hlookup⟩ := item_ok.mp hchoices
    cases hfirst : first choices with
    | error e' =>
      simp only [bind, Except.bind, hfirst] at h
      cases h
      exact first_error hfirst fun hnothing => hsome ⟨reply, choices, hreply, hlookup, hnothing⟩
    | ok choice =>
      simp only [bind, Except.bind, hfirst] at h
      cases hmessage : item "message" choice with
      | error e' =>
        simp only [hmessage] at h
        cases h
        exact item_error hmessage
      | ok message =>
        simp only [hmessage] at h
        exact item_error h

/-- From the parsed reply to the parsed content. -/
theorem fine_content {parsed : Json F} {loads : PyStr → Except Raised (Json F)}
    {next : Json F → Prop} : Fine (contentOf parsed >>= loadsContent loads) next ↔
      ¬ NothingToChoose parsed ∧
        ∀ content, HasContent parsed content → Fine (loads content) next := by
  rw [fine_bind]
  cases h : contentOf parsed with
  | error e =>
    have hno : ∀ content, ¬ HasContent parsed content := by
      intro content hcontent
      obtain ⟨v, hv, -⟩ := hasContent_iff.mp hcontent
      rw [h] at hv
      cases hv
    by_cases hnothing : NothingToChoose parsed
    · rw [contentOf_nothing hnothing] at h
      cases h
      refine iff_of_false ?_ fun hand => hand.1 hnothing
      show ¬ caughtInCall .IndexError = true
      decide
    · exact iff_of_true (contentOf_error h hnothing)
        ⟨hnothing, fun content hcontent => absurd hcontent (hno content)⟩
  | ok v =>
    have hsome : ¬ NothingToChoose parsed := by
      intro hnothing
      rw [contentOf_nothing hnothing] at h
      cases h
    rw [and_iff_right hsome]
    show Fine (loadsContent loads v) next ↔ _
    rw [loadsContent]
    cases htext : text? v with
    | none =>
      refine iff_of_true rfl ?_
      intro content hcontent
      obtain ⟨w, hw, hwtext⟩ := hasContent_iff.mp hcontent
      rw [h] at hw
      cases hw
      rw [htext] at hwtext
      cases hwtext
    | some s =>
      constructor
      · intro hfine content hcontent
        obtain ⟨w, hw, hwtext⟩ := hasContent_iff.mp hcontent
        rw [h] at hw
        cases hw
        rw [htext] at hwtext
        cases hwtext
        exact hfine
      · intro hall
        exact hall s (hasContent_iff.mpr ⟨v, h, htext⟩)

end Reply

/-! ## Merging -/

section Merging

variable {F K : Type}

theorem plainEntry_eq (m : Json F) : plainEntry m =
    match entryOf m with
    | none => .ok none
    | some entry => if hashable entry.1 then .ok (some entry) else .error .TypeError := by
  cases m with
  | obj kvs =>
    rw [plainEntry, entryOf]
    cases prose kvs "plain" with
    | none => rfl
    | some plain => rfl
  | _ => rfl

theorem filterMapM_plainEntry (items : List (Json F)) :
    ((∀ m ∈ items, ∀ entry, entryOf m = some entry → hashable entry.1 = true) ∧
      items.filterMapM plainEntry = .ok (items.filterMap entryOf)) ∨
    (¬ (∀ m ∈ items, ∀ entry, entryOf m = some entry → hashable entry.1 = true) ∧
      items.filterMapM plainEntry = .error .TypeError) := by
  induction items with
  | nil => exact Or.inl ⟨fun m hm => absurd hm List.not_mem_nil, rfl⟩
  | cons m items ih =>
    rw [List.forall_mem_cons, List.filterMapM_cons, plainEntry_eq]
    cases hentry : entryOf m with
    | none =>
      rw [List.filterMap_cons_none hentry]
      rcases ih with ⟨hall, hok⟩ | ⟨hnot, herr⟩
      · exact Or.inl ⟨⟨fun e he => (by cases he), hall⟩, hok⟩
      · exact Or.inr ⟨fun hand => hnot hand.2, herr⟩
    | some entry =>
      rw [List.filterMap_cons_some hentry]
      by_cases hhash : hashable entry.1 = true
      · simp only [hhash, if_true, bind, Except.bind]
        rcases ih with ⟨hall, hok⟩ | ⟨hnot, herr⟩
        · rw [hok]
          refine Or.inl ⟨⟨?_, hall⟩, rfl⟩
          intro e he
          cases he
          exact hhash
        · rw [herr]
          exact Or.inr ⟨fun hand => hnot hand.2, rfl⟩
      · simp only [hhash, bind, Except.bind]
        exact Or.inr ⟨fun hand => hhash (hand.1 entry rfl), rfl⟩

theorem llmPlain_cases (llm : List (String × Json F)) (field : String) :
    (MergeableField llm field ∧ llmPlain llm field = .ok (entries llm field)) ∨
      (¬ MergeableField llm field ∧ llmPlain llm field = .error .TypeError) := by
  rw [MergeableField, llmPlain, entries]
  cases h : iterate ((llm.lookup field).getD (.arr [])) with
  | error e =>
    have he : e = .TypeError := by
      generalize (llm.lookup field).getD (.arr []) = v at h
      cases v <;> cases h <;> rfl
    rw [he]
    refine Or.inr ⟨?_, rfl⟩
    intro hmerge
    obtain ⟨items, hitems, -⟩ := hmerge
    cases hitems
  | ok items =>
    show _ ∧ items.filterMapM plainEntry = _ ∨ _ ∧ items.filterMapM plainEntry = _
    rcases filterMapM_plainEntry items with ⟨hall, hok⟩ | ⟨hnot, herr⟩
    · exact Or.inl ⟨⟨items, rfl, hall⟩, hok⟩
    · refine Or.inr ⟨?_, herr⟩
      intro hmerge
      obtain ⟨items', hitems, hall⟩ := hmerge
      cases hitems
      exact hnot hall

section Told

variable (repr : Json F → PyStr) (facts : Told K) (llm : List (String × Json F))

/-- The narrative with the reply's prose over it. -/
def overlay : Told K :=
  { facts with
    headline := ((prose llm "headline").map strip).getD facts.headline
    summary := ((prose llm "summary").map strip).getD facts.summary
    notes := (llmNotes repr llm).getD facts.notes
    metrics := facts.metrics.map fun m =>
      { m with plain := (plainFor (entries llm "metrics") m.key).getD m.plain }
    changes := facts.changes.map fun c =>
      { c with plain := (plainFor (entries llm "changes") c.key).getD c.plain }
    mode := .llm }

theorem merge_cases : (Mergeable llm ∧ merge repr facts llm = .ok (overlay repr facts llm)) ∨
    (¬ Mergeable llm ∧ merge repr facts llm = .error .TypeError) := by
  rw [Mergeable, merge]
  rcases llmPlain_cases llm "metrics" with ⟨hm, hmok⟩ | ⟨hm, hmerr⟩
  · rw [hmok]
    rcases llmPlain_cases llm "changes" with ⟨hc, hcok⟩ | ⟨hc, hcerr⟩
    · rw [hcok]
      exact Or.inl ⟨⟨hm, hc⟩, rfl⟩
    · rw [hcerr]
      exact Or.inr ⟨fun hand => hc hand.2, rfl⟩
  · rw [hmerr]
    exact Or.inr ⟨fun hand => hm hand.1, rfl⟩

end Told

theorem encodable_getD {o : Option PyStr} {d : PyStr} (h : encodable d = true) :
    encodable (o.getD d) = true ↔ ∀ t ∈ o, encodable t = true := by
  cases o with
  | none => exact iff_of_true h fun t ht => by cases ht
  | some t =>
    constructor
    · intro henc t' ht'
      cases ht'
      exact henc
    · intro hall
      exact hall t rfl

/-- Texts of a list, each replaced where there is prose for it. -/
theorem forall_map_getD {α : Type} (xs : List α) (told : α → Option PyStr) (old : α → String) :
    (∀ t ∈ xs.map fun x => (told x).getD (py (old x)), encodable t = true) ↔
      ∀ t ∈ xs.filterMap told, encodable t = true := by
  rw [List.forall_mem_map]
  constructor
  · intro h t ht
    obtain ⟨x, hx, htold⟩ := List.mem_filterMap.mp ht
    exact (encodable_getD (encodable_py (old x))).mp (h x hx) t htold
  · intro h x hx
    refine (encodable_getD (encodable_py (old x))).mpr ?_
    intro t ht
    exact h t (List.mem_filterMap.mpr ⟨x, hx, ht⟩)

theorem forall_notes (notes : Option (List PyStr)) (old : List String) :
    (∀ t ∈ notes.getD (old.map py), encodable t = true) ↔
      ∀ t ∈ notes.getD [], encodable t = true := by
  cases notes with
  | some ts => exact Iff.rfl
  | none =>
    refine iff_of_true ?_ fun t ht => absurd ht List.not_mem_nil
    intro t ht
    obtain ⟨s, -, rfl⟩ := List.mem_map.mp ht
    exact encodable_py s

/-- The facts can be written, so all depends on the prose taken over. -/
theorem overlay_texts (repr : Json F → PyStr) (n : Backend.Narrative K)
    (llm : List (String × Json F)) :
    (∀ t ∈ (overlay repr (factsOf n) llm).texts, encodable t = true) ↔
      ∀ t ∈ taken repr n llm, encodable t = true := by
  have hmetrics := forall_map_getD n.metrics
    (fun m => plainFor (entries llm "metrics") m.key) (·.plain.text)
  have hchanges := forall_map_getD n.changes
    (fun c => plainFor (entries llm "changes") c.key) (·.plain.text)
  have hnotes := forall_notes (llmNotes repr llm) n.notes
  simp only [overlay, factsOf, Told.texts, taken, List.forall_mem_cons, List.forall_mem_append,
    List.map_map, Function.comp_def, encodable_getD (encodable_py _), Option.mem_toList,
    hmetrics, hchanges, hnotes]
  tauto

end Merging

/-! ## The handler -/

section Handler

variable {F K : Type} [PyFloat F] {getenv : String → Option PyStr}
  {urlopen : Request F → Except Raised (List UInt8)} {loads : PyStr → Except Raised (Json F)}
  {repr : Json F → PyStr} {finite : K → Prop} {n : Backend.Narrative K}

omit [PyFloat F] in
/-- The call, told apart by what its reply holds. -/
theorem fine_call (cfg : Config F) (facts : Told K) (next : Json F → Prop) :
    Fine (callChatCompletions urlopen loads cfg facts) next ↔
      Fine (urlopen (request cfg facts)) fun body =>
        ∀ raw, Core.Utf8.decodeStrict body = some raw →
          Fine (loads (raw.map Char.toNat)) fun parsed => ¬ NothingToChoose parsed ∧
            ∀ content, HasContent parsed content → Fine (loads content) next := by
  rw [callChatCompletions, fine_bind]
  refine fine_congr fun body _ => ?_
  cases hraw : Core.Utf8.decodeStrict body with
  | none =>
    refine iff_of_true rfl ?_
    intro raw hsome
    cases hsome
  | some raw =>
    show Fine (loads (raw.map Char.toNat) >>= fun parsed =>
      contentOf parsed >>= fun content => loadsContent loads content) next ↔ _
    rw [fine_bind]
    have hparsed : ∀ parsed, Fine (contentOf parsed >>= fun content => loadsContent loads content)
        next ↔ _ := fun parsed => fine_content
    simp only [hparsed]
    constructor
    · intro h raw' hsome
      cases hsome
      exact h
    · intro h
      exact h raw rfl

theorem config_eq : config getenv = (toFloat (timeoutMs getenv)).map fun timeout : F =>
    { enabled := isEnabled getenv, api_key := apiKey getenv
      base_url := rstripSlash (env getenv "RISK_LLM_BASE_URL" "https://api.openai.com/v1")
      model := env getenv "RISK_LLM_MODEL" "gpt-4o-mini"
      timeout := timeout / PyFloat.thousand } := by
  rw [config]
  cases toFloat (F := F) (timeoutMs getenv) <;> rfl

theorem config_ok {cfg : Config F} (h : config getenv = .ok cfg) :
    (∃ x : F, toFloat (timeoutMs getenv) = .ok x) ∧ cfg.enabled = isEnabled getenv ∧
      cfg.api_key = apiKey getenv := by
  rw [config_eq] at h
  cases hfloat : toFloat (F := F) (timeoutMs getenv) with
  | error e =>
    rw [hfloat] at h
    cases h
  | ok x =>
    rw [hfloat] at h
    cases h
    exact ⟨⟨x, rfl⟩, rfl, rfl⟩

/-! ### What comes of each result -/

section Results

variable {render : Told K → Bool}

theorem not_neverBreaks {e : Raised}
    (h : generateLlmNarrative repr getenv urlopen loads (factsOf n) = .error e) :
    ¬ NeverBreaks getenv urlopen loads repr n render := by
  intro hnever
  obtain ⟨r, hr, -⟩ := hnever.returns
  rw [h] at hr
  cases hr

variable (hrender : ∀ told, render told = true ↔ Writable finite told)

include hrender

/-- The fallback answers wherever the facts' figures can be written. -/
theorem neverBreaks_none
    (h : generateLlmNarrative repr getenv urlopen loads (factsOf n) = .ok none) :
    NeverBreaks getenv urlopen loads repr n render ↔ ∀ x ∈ (factsOf n).figures, finite x := by
  have hstatus : riskExplain repr getenv urlopen loads render (some n) (some "llm") =
      if render { factsOf n with llm_unavailable := true } then 200 else 500 := by
    simp only [riskExplain, if_true, h]
  constructor
  · intro hnever
    have hok := hnever.status
    rw [hstatus] at hok
    split at hok
    · rename_i hwrites
      exact ((hrender _).mp hwrites).figures
    · cases hok
  · intro hfigures
    have hwrites : render { factsOf n with llm_unavailable := true } = true :=
      (hrender _).mpr ⟨factsOf_texts n, hfigures⟩
    exact
      { returns := ⟨none, h, fun told ht => by cases ht⟩
        status := by rw [hstatus, if_pos hwrites] }

theorem neverBreaks_some {llm : List (String × Json F)}
    (h : generateLlmNarrative repr getenv urlopen loads (factsOf n) =
      .ok (some (overlay repr (factsOf n) llm))) :
    NeverBreaks getenv urlopen loads repr n render ↔
      (∀ x ∈ (factsOf n).figures, finite x) ∧ ∀ t ∈ taken repr n llm, encodable t = true := by
  have hstatus : riskExplain repr getenv urlopen loads render (some n) (some "llm") =
      if render (overlay repr (factsOf n) llm) then 200 else 500 := by
    simp only [riskExplain, if_true, h]
  have hfigures : (overlay repr (factsOf n) llm).figures = (factsOf n).figures := by
    simp only [overlay, Told.figures, List.map_map, Function.comp_def]
  have hwrites : render (overlay repr (factsOf n) llm) = true ↔
      (∀ x ∈ (factsOf n).figures, finite x) ∧ ∀ t ∈ taken repr n llm, encodable t = true := by
    rw [hrender, ← overlay_texts, ← hfigures]
    exact ⟨fun hw => ⟨hw.figures, hw.texts⟩, fun hand => ⟨hand.2, hand.1⟩⟩
  rw [← hwrites]
  constructor
  · intro hnever
    have hok := hnever.status
    rw [hstatus] at hok
    split at hok
    · assumption
    · cases hok
  · intro hrenders
    refine ⟨⟨_, h, ?_⟩, by rw [hstatus, if_pos hrenders]⟩
    intro told htold
    cases htold
    rfl

end Results

/-- What a call leaves of the request, by its outcome. -/
theorem generate_eq (urlopen : Request F → Except Raised (List UInt8))
    (loads : PyStr → Except Raised (Json F)) (repr : Json F → PyStr) {cfg : Config F}
    (hcfg : config getenv = .ok cfg) (hon : isEnabled getenv = true)
    (hkey : apiKey getenv ≠ []) (facts : Told K) :
    generateLlmNarrative repr getenv urlopen loads facts =
      match callChatCompletions urlopen loads cfg facts with
      | .error e => if caughtInCall e then .ok none else .error e
      | .ok (.obj llm) => match merge repr facts llm with
        | .error e => if caughtInMerge e then .ok none else .error e
        | .ok told => .ok (some told)
      | .ok _ => .ok none := by
  obtain ⟨-, henabled, hapi⟩ := config_ok hcfg
  rw [generateLlmNarrative, hcfg]
  simp only [bind, Except.bind, henabled, hapi, hon, hkey]
  rfl

theorem generate_off {cfg : Config F} (hcfg : config getenv = .ok cfg)
    (hoff : isEnabled getenv = false ∨ apiKey getenv = []) (facts : Told K) :
    generateLlmNarrative repr getenv urlopen loads facts = .ok none := by
  obtain ⟨-, henabled, hapi⟩ := config_ok hcfg
  rw [generateLlmNarrative, hcfg]
  simp only [bind, Except.bind, henabled, hapi]
  rcases hoff with hoff | hoff
  · rw [hoff]
    rfl
  · rw [hoff]
    cases isEnabled getenv <;> rfl

/-- The handler around a call that is made. -/
theorem neverBreaks_on {render : Told K → Bool}
    (hrender : ∀ told, render told = true ↔ Writable finite told) {cfg : Config F}
    (hcfg : config getenv = .ok cfg) (hon : isEnabled getenv = true)
    (hkey : apiKey getenv ≠ []) : NeverBreaks getenv urlopen loads repr n render ↔
      (∀ x ∈ (factsOf n).figures, finite x) ∧
        Fine (callChatCompletions urlopen loads cfg (factsOf n)) fun llm =>
          ∀ kvs, llm = .obj kvs → Mergeable kvs → ∀ t ∈ taken repr n kvs, encodable t = true := by
  have hgen := generate_eq urlopen loads repr hcfg hon hkey (factsOf n)
  cases hcall : callChatCompletions urlopen loads cfg (factsOf n) with
  | error e =>
    rw [hcall] at hgen
    by_cases hcaught : caughtInCall e = true
    · simp only [hcaught, if_true] at hgen
      rw [neverBreaks_none hrender hgen]
      exact (and_iff_left hcaught).symm
    · simp only [hcaught] at hgen
      exact iff_of_false (not_neverBreaks hgen) fun hand => hcaught hand.2
  | ok llm =>
    rw [hcall] at hgen
    cases llm with
    | obj kvs =>
      rcases merge_cases repr (factsOf n) kvs with ⟨hmerge, hok⟩ | ⟨hnot, herr⟩
      · simp only [hok] at hgen
        rw [neverBreaks_some hrender hgen]
        refine and_congr_right fun _ => ⟨?_, fun hall => hall kvs rfl hmerge⟩
        intro hall kvs' hkvs _
        cases hkvs
        exact hall
      · simp only [herr] at hgen
        rw [neverBreaks_none hrender hgen]
        refine (and_iff_left ?_).symm
        intro kvs' hkvs hmerge
        cases hkvs
        exact absurd hmerge hnot
    | _ =>
      rw [neverBreaks_none hrender hgen]
      refine (and_iff_left ?_).symm
      intro kvs hkvs
      cases hkvs

end Handler

/-! ## A reply without choices -/

section EmptyChoices

/-- LLM mode, switched on and with a key. -/
def switchedOn (name : String) : Option PyStr :=
  if name = "RISK_LLM_ENABLED" then some (py "true")
  else if name = "RISK_LLM_API_KEY" then some (py "sk-test")
  else none

theorem switchedOn_timeout : toFloat (timeoutMs switchedOn) = .ok (8000 : ℚ) := by
  decide +kernel

theorem switchedOn_config : ∃ cfg : Config ℚ, config switchedOn = .ok cfg := by
  rw [config_eq, switchedOn_timeout]
  exact ⟨_, rfl⟩

/-- `explain_snapshot` of an account in profit. -/
def inProfit : Backend.Narrative ℚ :=
  Backend.explainSnapshot ⟨"acct_123", "2026-01-01T00:00:00+00:00", .number 15000, .number 5000,
    .number (4 / 1000), .number 99, .number (3 / 10)⟩ none

/-- Every rational is finite. -/
def writes (told : Told ℚ) : Bool := told.texts.all encodable

theorem writes_iff (told : Told ℚ) : writes told = true ↔ Writable (fun _ => True) told := by
  rw [writes, List.all_eq_true]
  exact ⟨fun h => ⟨h, fun _ _ => trivial⟩, fun h => h.texts⟩

def emptyChoices : String := "\x7b\"choices\": []\x7d"

def loadsEmpty (s : PyStr) : Except Raised (Json ℚ) :=
  if s = py emptyChoices then .ok (.obj [("choices", .arr [])]) else .error .ValueError

/-- The first of no choices is an `IndexError`, which no handler names. -/
theorem empty_choices_raise :
    ¬ NeverBreaks switchedOn (fun _ => .ok (Core.Utf8.encode emptyChoices.toList)) loadsEmpty
      (fun _ => py "None") inProfit writes := by
  obtain ⟨cfg, hcfg⟩ := switchedOn_config
  have hcall : callChatCompletions
      (fun _ => .ok (Core.Utf8.encode emptyChoices.toList)) loadsEmpty cfg (factsOf inProfit) =
        .error .IndexError := by
    simp only [callChatCompletions, bind, Except.bind, Core.Utf8.decodeStrict_encode]
    have hloads : loadsEmpty (emptyChoices.toList.map Char.toNat) =
        .ok (.obj [("choices", .arr [])]) := if_pos rfl
    rw [hloads]
    rfl
  refine not_neverBreaks (e := .IndexError) ?_
  rw [generate_eq _ loadsEmpty _ hcfg (by decide +kernel) (by decide +kernel), hcall]
  rfl

end EmptyChoices

/-- **LLM mode never breaks the endpoint exactly where the timeout is a number,
the figures are finite, what the call raises is caught, the reply offers
something to choose from, and the prose taken over can be encoded.** -/
theorem llm_mode_serves {F K : Type} [PyFloat F] (getenv : String → Option PyStr)
    (urlopen : Request F → Except Raised (List UInt8)) (loads : PyStr → Except Raised (Json F))
    (repr : Json F → PyStr) (finite : K → Prop) {render : Told K → Bool}
    (hrender : ∀ told, render told = true ↔ Writable finite told) (n : Backend.Narrative K) :
    NeverBreaks getenv urlopen loads repr n render ↔
      Serves getenv urlopen loads repr finite n := by
  cases hcfg : config (F := F) getenv with
  | error e =>
    have hgen : generateLlmNarrative repr getenv urlopen loads (factsOf n) = .error e := by
      rw [generateLlmNarrative, hcfg]
      rfl
    refine iff_of_false (not_neverBreaks hgen) ?_
    intro hserves
    obtain ⟨x, hx⟩ := hserves.timeout
    rw [config_eq, hx] at hcfg
    cases hcfg
  | ok cfg =>
    by_cases hmade : isEnabled getenv = true ∧ apiKey getenv ≠ []
    · rw [neverBreaks_on hrender hcfg hmade.1 hmade.2, fine_call]
      constructor
      · intro hand
        refine ⟨(config_ok hcfg).1, hand.1, ?_⟩
        intro cfg' hcfg' _ _
        rw [hcfg] at hcfg'
        cases hcfg'
        exact hand.2
      · intro hserves
        exact ⟨hserves.figures, hserves.reply cfg hcfg hmade.1 hmade.2⟩
    · have hoff : isEnabled getenv = false ∨ apiKey getenv = [] := by
        by_cases hon : isEnabled getenv = true
        · exact Or.inr (not_not.mp fun hkey => hmade ⟨hon, hkey⟩)
        · exact Or.inl (Bool.eq_false_iff.mpr hon)
      rw [neverBreaks_none hrender (generate_off hcfg hoff (factsOf n))]
      constructor
      · intro hfigures
        exact ⟨(config_ok hcfg).1, hfigures, fun _ _ hon hkey => absurd ⟨hon, hkey⟩ hmade⟩
      · intro hserves
        exact hserves.figures

section Rewritten

def ahead : String := "You are ahead."

/-- What a model writes, and the completion that carries it. -/
def rewritten : String := "\x7b\"headline\": \"You are ahead.\"\x7d"

def completion : String :=
  "\x7b\"choices\": [\x7b\"message\": \x7b\"content\": " ++
    "\"\x7b\\\"headline\\\": \\\"You are ahead.\\\"\x7d\"\x7d\x7d]\x7d"

def loadsCompletion (s : PyStr) : Except Raised (Json ℚ) :=
  if s = py completion then
    .ok (.obj [("choices", .arr [.obj [("message", .obj [("content", .str rewritten)])]])])
  else if s = py rewritten then .ok (.obj [("headline", .str ahead)])
  else .error .ValueError

def answered (_ : Request ℚ) : Except Raised (List UInt8) :=
  .ok (Core.Utf8.encode completion.toList)

theorem completion_read (cfg : Config ℚ) (facts : Told ℚ) :
    callChatCompletions answered loadsCompletion cfg facts =
      .ok (.obj [("headline", .str ahead)]) := by
  have hcompletion : loadsCompletion (completion.toList.map Char.toNat) =
      .ok (.obj [("choices", .arr [.obj [("message", .obj [("content", .str rewritten)])]])]) :=
    if_pos rfl
  have hrewritten : loadsCompletion (py rewritten) = .ok (.obj [("headline", .str ahead)]) := by
    rw [loadsCompletion, if_neg (by decide +kernel), if_pos rfl]
  simp only [callChatCompletions, answered, bind, Except.bind, Core.Utf8.decodeStrict_encode]
  rw [hcompletion]
  exact hrewritten

/-- Without a network the facts are served, and else the headline that the model
wrote is merged into them. -/
theorem llm_mode_serves_switchedOn :
    NeverBreaks (F := ℚ) switchedOn (fun _ => .error .OSError) (fun _ => .error .ValueError)
        (fun _ => py "None") inProfit writes ∧
      NeverBreaks switchedOn answered loadsCompletion (fun _ => py "None") inProfit writes ∧
      ∃ told, generateLlmNarrative (fun _ => py "None") switchedOn answered loadsCompletion
        (factsOf inProfit) = .ok (some told) ∧ told.headline = py ahead := by
  refine ⟨?_, ?_, ?_⟩
  · refine (llm_mode_serves (F := ℚ) switchedOn _ _ _ (fun _ => True) writes_iff inProfit).mpr ?_
    exact
      { timeout := ⟨8000, switchedOn_timeout⟩
        figures := fun _ _ => trivial
        reply := fun _ _ _ _ => rfl }
  · refine (llm_mode_serves switchedOn _ _ _ (fun _ => True) writes_iff inProfit).mpr ?_
    exact
      { timeout := ⟨8000, switchedOn_timeout⟩
        figures := fun _ _ => trivial
        reply := fun cfg hcfg hon hkey => by
          rw [← fine_call, completion_read]
          intro kvs hkvs _
          cases hkvs
          decide +kernel }
  · obtain ⟨cfg, hcfg⟩ := switchedOn_config
    rw [generate_eq _ loadsCompletion _ hcfg (by decide +kernel) (by decide +kernel),
      completion_read]
    exact ⟨_, rfl, by decide +kernel⟩

end Rewritten

end TradePulse.Explain.Llm
