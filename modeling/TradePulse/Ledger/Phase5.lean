import TradePulse.Core.Firsts
import Mathlib.Algebra.Group.Nat.Defs
import Mathlib.Logic.Function.Basic

/-! # `Phase5PocConsumer.handle`

Strings are sequences of UTF-16 code units, and Jackson's parser is a
parameter. An exception is raised where Java dereferences or stores a null. -/
namespace TradePulse.Ledger.Phase5
open TradePulse.Core

/-! ## Java and Jackson -/

abbrev JavaString := List UInt16

/-- A text that is ASCII. -/
def java (s : String) : JavaString := s.toList.map fun c => UInt16.ofNat c.toNat

/-- `Character.isWhitespace`. -/
def isWhitespace (c : UInt16) : Bool :=
  (9 ≤ c && c ≤ 13) || (28 ≤ c && c ≤ 32) || c = 0x1680 || (0x2000 ≤ c && c ≤ 0x2006) ||
    (0x2008 ≤ c && c ≤ 0x200A) || c = 0x2028 || c = 0x2029 || c = 0x205F || c = 0x3000

def isBlank (s : JavaString) : Bool := s.all isWhitespace

inductive JavaException where
  | NullPointerException
  /-- What `readTree` throws. -/
  | Unparseable
  deriving DecidableEq

/-- A `JsonNode`; the text of a number is the one that `asText` gives. -/
inductive JsonNode where
  | missing
  | null
  | bool (b : Bool)
  | number (text : JavaString)
  | text (s : JavaString)
  | array (xs : List JsonNode)
  | object (fields : List (JavaString × JsonNode))

namespace JsonNode

/-- `get(fieldName)`, or `none` for a Java null. -/
def get (fieldName : JavaString) : JsonNode → Option JsonNode
  | object fields => fields.lookup fieldName
  | _ => none

def path (fieldName : JavaString) (node : JsonNode) : JsonNode := (node.get fieldName).getD missing

def hasNonNull (fieldName : JavaString) (node : JsonNode) : Bool :=
  match node.get fieldName with
  | none | some null => false
  | some _ => true

/-- `asText()`. -/
def asText : JsonNode → JavaString
  | missing | array _ | object _ => []
  | null => java "null"
  | bool b => if b then java "true" else java "false"
  | number s | text s => s

/-- `asText(defaultValue)`, where `none` is a Java null. -/
def asTextOr (defaultValue : Option JavaString) : JsonNode → Option JavaString
  | missing | null => defaultValue
  | node => some node.asText

end JsonNode

/-- A null is dereferenced, or is given to a concurrent collection. -/
def nonNull {α : Type} : Option α → Except JavaException α
  | some x => .ok x
  | none => .error .NullPointerException

/-! ## The consumer -/

/-- `AtomicInteger`s wrap. -/
structure Phase5PocConsumer where
  processed : List JavaString
  positionView : JavaString → Option JavaString
  applied : BitVec 32
  skipped : BitVec 32

def newConsumer : Phase5PocConsumer :=
  { processed := [], positionView := fun _ => none, applied := 0, skipped := 0 }

namespace Phase5PocConsumer

def appliedCount (c : Phase5PocConsumer) : ℤ := c.applied.toInt

def skippedCount (c : Phase5PocConsumer) : ℤ := c.skipped.toInt

end Phase5PocConsumer

/-- `"|"`. -/
def bar : UInt16 := 124

/-- The `if` on `data` in `handle`. -/
def project (data : JsonNode) (view : JavaString → Option JavaString) :
    Except JavaException (JavaString → Option JavaString) :=
  if data.hasNonNull (java "account_id") && data.hasNonNull (java "symbol") then do
    let account_id ← nonNull (data.get (java "account_id"))
    let symbol ← nonNull (data.get (java "symbol"))
    let key := account_id.asText ++ [bar] ++ symbol.asText
    let value ← nonNull ((data.path (java "position_after")).asTextOr (some []))
    return Function.update view key (some value)
  else return view

variable (readTree : JavaString → Except JavaException JsonNode)

def handle (eventJson : JavaString) (c : Phase5PocConsumer) :
    Except JavaException (Bool × Phase5PocConsumer) :=
  match readTree eventJson with
  | .error _ => .ok (false, c)
  | .ok root =>
    let eventId := (root.path (java "event_id")).asTextOr none
    let data := root.path (java "data")
    if eventId.all isBlank then .ok (false, c)
    else do
      let eventId ← nonNull eventId
      if eventId ∈ c.processed then return (false, { c with skipped := c.skipped + 1 })
      let positionView ← project data c.positionView
      return (true, { c with processed := c.processed ++ [eventId], positionView
                             applied := c.applied + 1 })

def handleAll (eventJsons : List JavaString) (c : Phase5PocConsumer) :
    Except JavaException Phase5PocConsumer :=
  eventJsons.foldlM (fun c eventJson => Prod.snd <$> handle readTree eventJson c) c

/-! ## The events -/

/-- The id and the data of a string that parses, if the id is not blank. -/
def eventOf (eventJson : JavaString) : Option (JavaString × JsonNode) :=
  match readTree eventJson with
  | .error _ => none
  | .ok root => (((root.path (java "event_id")).asTextOr none).filter fun id => !isBlank id).map
      fun id => (id, root.path (java "data"))

def events (eventJsons : List JavaString) : List (JavaString × JsonNode) :=
  eventJsons.filterMap (eventOf readTree)

/-- The account, the symbol and the position of an event that has them. -/
def posting (data : JsonNode) : Option ((JavaString × JavaString) × JavaString) :=
  if data.hasNonNull (java "account_id") && data.hasNonNull (java "symbol") then
    some (((data.path (java "account_id")).asText, (data.path (java "symbol")).asText),
      ((data.path (java "position_after")).asTextOr (some [])).getD [])
  else none

/-- The postings of the first event under each id. -/
def postings (eventJsons : List JavaString) : List ((JavaString × JavaString) × JavaString) :=
  (firsts (events readTree eventJsons)).filterMap fun e => posting e.2

/-- How many ids there are, and how many events repeat one. -/
def distinct (eventJsons : List JavaString) : ℕ :=
  ((events readTree eventJsons).map Prod.fst).toFinset.card

/-- Each event is counted once, and each pair's position is its own last one. -/
structure Projects (eventJsons : List JavaString) (c : Phase5PocConsumer) : Prop where
  applied : c.appliedCount = distinct readTree eventJsons
  total : c.appliedCount + c.skippedCount = (events readTree eventJsons).length
  view : ∀ account_id symbol, c.positionView (account_id ++ [bar] ++ symbol) =
    lastOf (postings readTree eventJsons) (account_id, symbol)

/-- No bar in an account or a symbol, and the counts are `int`s. -/
structure WithinBounds (eventJsons : List JavaString) : Prop where
  plain : ∀ p ∈ postings readTree eventJsons, Plain bar p.1
  applied : distinct readTree eventJsons < 2 ^ 31
  skipped : (events readTree eventJsons).length - distinct readTree eventJsons < 2 ^ 31

/-! ## One call -/

namespace JsonNode

variable {node : JsonNode} {fieldName : JavaString}

theorem hasNonNull_get (h : node.hasNonNull fieldName = true) :
    node.get fieldName = some (node.path fieldName) := by
  rw [path]
  cases hget : node.get fieldName with
  | none =>
    rw [hasNonNull, hget] at h
    cases h
  | some x => rfl

theorem asTextOr_some (node : JsonNode) (s : JavaString) : ∃ t, node.asTextOr (some s) = some t := by
  cases node <;> exact ⟨_, rfl⟩

end JsonNode

/-- What the view maps keys to. -/
def keyed (entries : List ((JavaString × JavaString) × JavaString)) :
    List (JavaString × JavaString) :=
  entries.map fun e => (joined bar e.1, e.2)

theorem lastOf_keyed_snoc (entries : List ((JavaString × JavaString) × JavaString))
    (e : (JavaString × JavaString) × JavaString) :
    lastOf (keyed (entries ++ [e])) =
      Function.update (lastOf (keyed entries)) (joined bar e.1) (some e.2) := by
  funext k
  rw [keyed, List.map_append, List.map_singleton, lastOf_snoc]
  by_cases h : joined bar e.1 = k
  · rw [if_pos h, ← h, Function.update_self]
  · rw [if_neg h, Function.update_of_ne (Ne.symm h), keyed]

def put (view : JavaString → Option JavaString) :
    Option ((JavaString × JavaString) × JavaString) → JavaString → Option JavaString
  | some p => Function.update view (joined bar p.1) (some p.2)
  | none => view

/-- The consumer after some events. -/
def consumerOf (es : List (JavaString × JsonNode)) : Phase5PocConsumer where
  processed := (firsts es).map Prod.fst
  positionView := lastOf (keyed ((firsts es).filterMap fun e => posting e.2))
  applied := BitVec.ofNat 32 (firsts es).length
  skipped := BitVec.ofNat 32 (es.length - (firsts es).length)

variable {readTree}

theorem handle_none {eventJson : JavaString} (h : eventOf readTree eventJson = none)
    (c : Phase5PocConsumer) : handle readTree eventJson c = .ok (false, c) := by
  rw [eventOf] at h
  rw [handle]
  split
  · rfl
  · rename_i root hroot
    rw [hroot] at h
    have hblank : ((root.path (java "event_id")).asTextOr none).all isBlank = true := by
      cases hid : (root.path (java "event_id")).asTextOr none with
      | none => rfl
      | some id =>
        simp only [hid, Option.map_eq_none_iff, Option.filter_eq_none_iff] at h
        simpa using h id rfl
    simp only [hblank, if_true]

section Events

variable {es : List (JavaString × JsonNode)} {e : JavaString × JsonNode}

theorem consumerOf_known (h : e.1 ∈ (firsts es).map Prod.fst) :
    consumerOf (es ++ [e]) = { consumerOf es with skipped := (consumerOf es).skipped + 1 } := by
  have hle := length_firsts_le es
  have hskipped : (es ++ [e]).length - (firsts es).length = es.length - (firsts es).length + 1 := by
    rw [List.length_append, List.length_singleton]
    omega
  rw [consumerOf, firsts_snoc_known h, hskipped, BitVec.ofNat_add]
  rfl

theorem consumerOf_new (h : e.1 ∉ (firsts es).map Prod.fst) :
    consumerOf (es ++ [e]) =
      { consumerOf es with
        processed := (consumerOf es).processed ++ [e.1]
        positionView := put (consumerOf es).positionView (posting e.2)
        applied := (consumerOf es).applied + 1 } := by
  have hskipped : (es ++ [e]).length - (firsts (es ++ [e])).length =
      es.length - (firsts es).length := by
    rw [firsts_snoc_new h, List.length_append, List.length_append, List.length_singleton]
    omega
  rw [consumerOf, hskipped, firsts_snoc_new h, List.map_append, List.filterMap_append,
    List.length_append, List.length_singleton, BitVec.ofNat_add]
  cases hp : posting e.2 with
  | none =>
    rw [List.filterMap_cons_none (f := fun e : JavaString × JsonNode => posting e.2) hp,
      List.filterMap_nil, List.append_nil]
    rfl
  | some p =>
    rw [List.filterMap_cons_some (f := fun e : JavaString × JsonNode => posting e.2) hp,
      List.filterMap_nil, lastOf_keyed_snoc]
    rfl

end Events

theorem key_eq (account_id symbol : JavaString) :
    account_id ++ [bar] ++ symbol = joined bar (account_id, symbol) := by
  rw [List.append_assoc]
  rfl

theorem project_eq (data : JsonNode) (view : JavaString → Option JavaString) :
    project data view = .ok (put view (posting data)) := by
  rw [project, posting]
  split
  · rename_i h
    obtain ⟨haccount, hsymbol⟩ := Bool.and_eq_true_iff.mp h
    obtain ⟨value, hvalue⟩ := JsonNode.asTextOr_some (data.path (java "position_after")) []
    rw [JsonNode.hasNonNull_get haccount, JsonNode.hasNonNull_get hsymbol, hvalue]
    simp only [nonNull, bind, Except.bind, key_eq]
    rfl
  · rfl

theorem handle_some {eventJson : JavaString} {e : JavaString × JsonNode}
    (h : eventOf readTree eventJson = some e) (es : List (JavaString × JsonNode)) :
    ∃ applied, handle readTree eventJson (consumerOf es) =
      .ok (applied, consumerOf (es ++ [e])) := by
  rw [eventOf] at h
  rw [handle]
  split at h
  · cases h
  · rename_i root hroot
    obtain ⟨id, hid, rfl⟩ := Option.map_eq_some_iff.mp h
    obtain ⟨hid, hblank⟩ := Option.filter_eq_some_iff.mp hid
    have hblank' : isBlank id = false := by simpa using hblank
    simp only [hid, Option.all_some, hblank', Bool.false_eq_true, if_false, nonNull, bind,
      Except.bind]
    by_cases hknown : id ∈ (firsts es).map Prod.fst
    · rw [consumerOf_known hknown]
      exact ⟨false, if_pos hknown⟩
    · rw [consumerOf_new hknown]
      refine ⟨true, (if_neg hknown).trans ?_⟩
      rw [project_eq]
      rfl

theorem handleAll_eq (eventJsons : List JavaString) :
    handleAll readTree eventJsons newConsumer = .ok (consumerOf (events readTree eventJsons)) := by
  induction eventJsons using List.reverseRecOn with
  | nil => rfl
  | append_singleton eventJsons eventJson ih =>
    have hevents : events readTree (eventJsons ++ [eventJson]) =
        events readTree eventJsons ++ [eventJson].filterMap (eventOf readTree) :=
      List.filterMap_append
    rw [handleAll, List.foldlM_append, ← handleAll, ih, hevents]
    show Prod.snd <$> handle readTree eventJson (consumerOf _) >>= _ = _
    cases he : eventOf readTree eventJson with
    | none =>
      rw [handle_none he, List.filterMap_cons_none he, List.filterMap_nil, List.append_nil]
      rfl
    | some e =>
      obtain ⟨applied, hhandle⟩ := handle_some he (events readTree eventJsons)
      rw [hhandle, List.filterMap_cons_some he, List.filterMap_nil]
      rfl

/-! ## Sequences of calls -/

variable (readTree) in
/-- What one more string adds to the postings. -/
theorem postings_snoc (eventJsons : List JavaString) (eventJson : JavaString) :
    postings readTree (eventJsons ++ [eventJson]) = postings readTree eventJsons ∨
      ∃ p, postings readTree (eventJsons ++ [eventJson]) = postings readTree eventJsons ++ [p] := by
  have hevents : events readTree (eventJsons ++ [eventJson]) =
      events readTree eventJsons ++ [eventJson].filterMap (eventOf readTree) :=
    List.filterMap_append
  rw [postings, hevents]
  cases he : eventOf readTree eventJson with
  | none =>
    rw [List.filterMap_cons_none he, List.filterMap_nil, List.append_nil]
    exact .inl rfl
  | some e =>
    rw [List.filterMap_cons_some he, List.filterMap_nil]
    by_cases hknown : e.1 ∈ (firsts (events readTree eventJsons)).map Prod.fst
    · rw [firsts_snoc_known hknown]
      exact .inl rfl
    · rw [firsts_snoc_new hknown, List.filterMap_append]
      cases hp : posting e.2 with
      | none =>
        rw [List.filterMap_cons_none (f := fun e : JavaString × JsonNode => posting e.2) hp,
          List.filterMap_nil, List.append_nil]
        exact .inl rfl
      | some p =>
        rw [List.filterMap_cons_some (f := fun e : JavaString × JsonNode => posting e.2) hp,
          List.filterMap_nil]
        exact .inr ⟨p, rfl⟩

theorem toInt_ofNat_iff (n : ℕ) : (BitVec.ofNat 32 n).toInt = n ↔ n < 2 ^ 31 := by
  rw [BitVec.toInt_ofNat', Int.bmod_def]
  split <;> omega

theorem prefix_postings {done eventJsons : List JavaString} (h : done <+: eventJsons) :
    postings readTree done <+: postings readTree eventJsons := by
  obtain ⟨rest, rfl⟩ := h
  rw [postings, postings, events, events, List.filterMap_append]
  exact (firsts_append _ _).1.filterMap _

theorem WithinBounds.of_prefix {done eventJsons : List JavaString}
    (h : WithinBounds readTree eventJsons) (hdone : done <+: eventJsons) :
    WithinBounds readTree done := by
  obtain ⟨happlied, hskipped⟩ := And.intro h.applied h.skipped
  obtain ⟨rest, rfl⟩ := hdone
  rw [distinct, events, List.filterMap_append, ← length_firsts] at happlied hskipped
  obtain ⟨hpre, hlen⟩ := firsts_append (done.filterMap (eventOf readTree))
    (rest.filterMap (eventOf readTree))
  rw [List.length_append] at hskipped
  have hle := hpre.length_le
  refine ⟨fun p hp => h.plain p ((prefix_postings ⟨rest, rfl⟩).subset hp), ?_, ?_⟩
  · rw [distinct, ← length_firsts, events]
    omega
  · rw [distinct, ← length_firsts, events]
    omega

/-- The counters are right as long as they are small. -/
theorem counts_iff (eventJsons : List JavaString) :
    ((consumerOf (events readTree eventJsons)).appliedCount = distinct readTree eventJsons ∧
      (consumerOf (events readTree eventJsons)).appliedCount +
        (consumerOf (events readTree eventJsons)).skippedCount =
          (events readTree eventJsons).length) ↔
      distinct readTree eventJsons < 2 ^ 31 ∧
        (events readTree eventJsons).length - distinct readTree eventJsons < 2 ^ 31 := by
  have hle := length_firsts_le (events readTree eventJsons)
  rw [distinct, ← length_firsts]
  have happlied := toInt_ofNat_iff (firsts (events readTree eventJsons)).length
  have hskipped := toInt_ofNat_iff
    ((events readTree eventJsons).length - (firsts (events readTree eventJsons)).length)
  show ((BitVec.ofNat 32 (firsts _).length).toInt = _ ∧ (BitVec.ofNat 32 (firsts _).length).toInt +
    (BitVec.ofNat 32 (_ - (firsts _).length)).toInt = _) ↔ _
  constructor
  · rintro ⟨hcount, htotal⟩
    rw [hcount] at htotal
    exact ⟨happlied.mp hcount, hskipped.mp (by omega)⟩
  · rintro ⟨hids, hrepeats⟩
    rw [happlied.mpr hids, hskipped.mpr hrepeats]
    exact ⟨rfl, by omega⟩

/-- Plain pairs have keys of their own. -/
theorem view_of_plain {eventJsons : List JavaString}
    (h : ∀ p ∈ postings readTree eventJsons, Plain bar p.1) (pair : JavaString × JavaString) :
    lastOf (keyed (postings readTree eventJsons)) (joined bar pair) =
      lastOf (postings readTree eventJsons) pair :=
  lastOf_map fun p hp heq => (h p hp).joined_inj heq

/-- A pair that is not plain shows up under the key of another. -/
theorem not_projects_snoc {eventJsons : List JavaString} {eventJson : JavaString}
    {p : (JavaString × JavaString) × JavaString}
    (hposted : postings readTree (eventJsons ++ [eventJson]) = postings readTree eventJsons ++ [p])
    (hplain : ∀ q ∈ postings readTree eventJsons, Plain bar q.1) (hp : ¬ Plain bar p.1) :
    ¬ Projects readTree (eventJsons ++ [eventJson])
      (consumerOf (events readTree (eventJsons ++ [eventJson]))) := by
  intro hprojects
  obtain ⟨q, hne, hq, hkey⟩ := exists_joined_eq hp
  have hview := hprojects.view q.1 q.2
  rw [key_eq, Prod.mk.eta, hkey, hposted] at hview
  have hnone : lastOf (postings readTree eventJsons ++ [p]) q = none := by
    rw [lastOf_snoc, if_neg (Ne.symm hne), lastOf_eq_none]
    intro e he heq
    exact hq (heq ▸ hplain e he)
  rw [hnone] at hview
  have hsome : lastOf (keyed (postings readTree (eventJsons ++ [eventJson]))) (joined bar p.1) =
      some p.2 := by
    rw [hposted, lastOf_keyed_snoc, Function.update_self]
  rw [show (consumerOf (events readTree (eventJsons ++ [eventJson]))).positionView =
    lastOf (keyed (postings readTree (eventJsons ++ [eventJson]))) from rfl, hsome] at hview
  cases hview

variable (readTree) in
/-- No call throws, and the projection is right after each of them exactly when
no account and no symbol has a bar in it and the counts are `int`s. -/
theorem projects_iff (eventJsons : List JavaString) :
    (∀ done, done <+: eventJsons → ∃ c, handleAll readTree done newConsumer = .ok c ∧
      Projects readTree done c) ↔ WithinBounds readTree eventJsons := by
  constructor
  · intro h
    have hat : ∀ done, done <+: eventJsons → Projects readTree done
        (consumerOf (events readTree done)) := by
      intro done hdone
      obtain ⟨c, hc, hprojects⟩ := h done hdone
      rw [handleAll_eq] at hc
      cases hc
      exact hprojects
    have hlast := hat eventJsons (List.prefix_refl _)
    obtain ⟨hids, hrepeats⟩ := (counts_iff eventJsons).mp ⟨hlast.applied, hlast.total⟩
    refine ⟨?_, hids, hrepeats⟩
    clear h hlast hids hrepeats
    induction eventJsons using List.reverseRecOn with
    | nil => exact fun p hp => by cases hp
    | append_singleton eventJsons eventJson ih =>
      have hplain := ih fun done hdone => hat done (hdone.trans (List.prefix_append _ _))
      rcases postings_snoc readTree eventJsons eventJson with hsame | ⟨p, hposted⟩
      · rwa [hsame]
      · intro q hq
        rw [hposted] at hq
        rcases List.mem_append.mp hq with hq | hq
        · exact hplain q hq
        · rw [List.mem_singleton.mp hq]
          by_contra hbar
          exact not_projects_snoc hposted hplain hbar (hat _ (List.prefix_refl _))
  · intro h done hdone
    have hdone' := h.of_prefix hdone
    obtain ⟨happlied, htotal⟩ := (counts_iff done).mpr ⟨hdone'.applied, hdone'.skipped⟩
    refine ⟨_, handleAll_eq done, happlied, htotal, ?_⟩
    intro account_id symbol
    rw [key_eq]
    exact view_of_plain hdone'.plain (account_id, symbol)

/-! ## Two pairs, one key -/

/-- An envelope, and what Jackson makes of it. -/
def envelopeText (id account_id symbol position : String) : JavaString :=
  java ("\x7b\"event_id\":\"" ++ id ++ "\",\"data\":\x7b\"account_id\":\"" ++ account_id ++
    "\",\"symbol\":\"" ++ symbol ++ "\",\"position_after\":" ++ position ++ "\x7d\x7d")

def envelopeNode (id account_id symbol position : String) : JsonNode :=
  .object [(java "event_id", .text (java id)), (java "data", .object
    [(java "account_id", .text (java account_id)), (java "symbol", .text (java symbol)),
      (java "position_after", .number (java position))])]

/-- `readTree`, as far as these two texts go. -/
def readTwo (eventJson : JavaString) : Except JavaException JsonNode :=
  if eventJson = envelopeText "e1" "acct" "1|MSFT" "5" then
    .ok (envelopeNode "e1" "acct" "1|MSFT" "5")
  else if eventJson = envelopeText "e2" "acct|1" "MSFT" "3" then
    .ok (envelopeNode "e2" "acct|1" "MSFT" "3")
  else .error .Unparseable

/-- The position of the first account is overwritten by the second's. -/
theorem bar_mixes_accounts : ¬ ∀ eventJsons c,
    handleAll readTwo eventJsons newConsumer = .ok c → Projects readTwo eventJsons c := by
  intro h
  have hview := (h [envelopeText "e1" "acct" "1|MSFT" "5", envelopeText "e2" "acct|1" "MSFT" "3"] _
    (handleAll_eq _)).view (java "acct") (java "1|MSFT")
  revert hview
  decide +kernel

end TradePulse.Ledger.Phase5
