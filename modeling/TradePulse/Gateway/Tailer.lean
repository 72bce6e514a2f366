import TradePulse.Core.Runs
import TradePulse.Core.StreamLog
import Mathlib.Data.List.Nodup
import Mathlib.Logic.Function.Basic

/-! # `streamTailer.run`

The gateway tails a set of streams with one blocking `XREAD` after another and
hands each entry's `event` field to the broker. The cursor of a stream starts
at `$` and becomes a concrete id with the first entry it delivers. `$` is
resolved anew by every call, so what is appended to a stream between two calls
is passed over as long as its cursor is still `$`; nothing else is. -/
namespace TradePulse.Gateway
open TradePulse.Core TradePulse.Core.Runs TradePulse.Core.StreamLog

/-! ## Model -/

/-- A stream entry: its fields, in order. -/
structure Entry where
  values : List (String × String)
  deriving DecidableEq

/-- `m.Values["event"].(string)`: of equal fields the last counts, and a
missing one reads as the empty string. -/
def Entry.payload (e : Entry) : String := (e.values.reverse.lookup "event").getD ""

structure Message where
  Event : String
  Data : String
  deriving DecidableEq

/-- `streamTailer.streams`: Redis stream name to SSE event name. -/
structure StreamTailer where
  streams : List (String × String)
  nodup : (streams.map (·.1)).Nodup

def StreamTailer.streamNames (t : StreamTailer) : List String := t.streams.map (·.1)

theorem StreamTailer.streamNames_nodup (t : StreamTailer) : t.streamNames.Nodup := t.nodup

def StreamTailer.eventName (t : StreamTailer) (s : String) : String :=
  (t.streams.lookup s).getD ""

inductive LastID where
  | dollar
  | id (n : Nat)
  deriving DecidableEq

/-- The position that a call reads from; `$` is the end of the stream. -/
def LastID.resolve (len : Nat) : LastID → Nat
  | .dollar => len
  | .id n => n

/-- A message of a reply: the stream, the id, the entry. -/
abbrev XMessage := String × Nat × Entry

inductive Phase where
  /-- At the head of the loop. -/
  | idle
  /-- `XREAD` waits for an entry behind these positions. -/
  | blocked (cursors : String → Nat)
  /-- The messages of the reply still to go through. -/
  | replied (rest : List XMessage)
  | stopped

/-- The streams, the tailer, what the broker was given for each stream, and
two records: the lengths of the streams when `XREAD` was first issued, and the
last entry received of each. -/
structure TailState where
  logs : String → List Entry
  cancelled : Bool
  lastID : String → LastID
  phase : Phase
  published : List (String × Message)
  started : Option (String → Nat)
  received : String → Option Nat

inductive TailAct where
  | append (stream : String) (e : Entry)
  | iterate
  | timeout
  | error
  | take
  | cancel

/-- `Count`, for each stream. -/
def count : Nat := 128

/-- What `XREAD` finds behind the cursors, stream by stream. -/
def xread (streamNames : List String) (cursors : String → Nat) (logs : String → List Entry) :
    List XMessage :=
  streamNames.flatMap fun s => ((after (logs s) (cursors s)).take count).map (s, ·)

/-- `XREAD` replies as soon as it finds something, and waits until then. -/
def await (streamNames : List String) (cursors : String → Nat) (logs : String → List Entry) :
    Phase :=
  match xread streamNames cursors logs with
  | [] => .blocked cursors
  | m :: rest => .replied (m :: rest)

/-- The loop body for one message. -/
def deliver (t : StreamTailer) (w : TailState) : XMessage → TailState
  | (s, id, e) =>
    { w with
      lastID := Function.update w.lastID s (.id id)
      received := Function.update w.received s (some id)
      published :=
        if e.payload = "" then w.published
        else w.published ++ [(s, ⟨t.eventName s, e.payload⟩)] }

def step (t : StreamTailer) : TailAct → TailState → Option TailState
  | .append s e, w =>
    let logs := Function.update w.logs s (w.logs s ++ [e])
    match w.phase with
    | .blocked cursors => some { w with logs, phase := await t.streamNames cursors logs }
    | _ => some { w with logs }
  | .iterate, w =>
    match w.phase with
    | .idle =>
      if w.cancelled then some { w with phase := .stopped }
      else
        let cursors s := (w.lastID s).resolve (w.logs s).length
        some { w with
          started := w.started <|> some fun s => (w.logs s).length
          phase := await t.streamNames cursors w.logs }
    | _ => none
  | .timeout, w =>
    match w.phase with
    | .blocked _ => some { w with phase := .idle }
    | _ => none
  | .error, w =>
    match w.phase with
    | .idle | .blocked _ => some { w with phase := if w.cancelled then .stopped else .idle }
    | _ => none
  | .take, w =>
    match w.phase with
    | .replied (m :: rest) => some { deliver t w m with phase := .replied rest }
    | .replied [] => some { w with phase := .idle }
    | _ => none
  | .cancel, w => some { w with cancelled := true }

/-! ## Statement -/

/-- What the broker was given for a stream. -/
def TailState.publishedFor (w : TailState) (s : String) : List Message :=
  (w.published.filter (·.1 = s)).map (·.2)

/-- The messages due for entries of a stream. -/
def messages (t : StreamTailer) (s : String) (es : List Entry) : List Message :=
  (es.filter (·.payload ≠ "")).map fun e => ⟨t.eventName s, e.payload⟩

/-- Since the first call every entry was published, up to the last received. -/
def Gapless (t : StreamTailer) (w : TailState) : Prop :=
  ∀ first, w.started = some first → ∀ s ∈ t.streamNames, w.publishedFor s =
    match w.received s with
    | none => []
    | some n => messages t s (between (w.logs s) (first s) n)

def noRedisError (_ : TailState) : TailAct → Prop
  | .error => False
  | _ => True

/-- `XREAD` is issued again with `$` only for streams on which no event has
been appended since it was first issued. -/
def nothingPassedOver (t : StreamTailer) (w : TailState) : TailAct → Prop
  | .iterate => ∀ first ∈ w.started, ∀ s ∈ t.streamNames, w.lastID s = .dollar →
      ∀ e ∈ (w.logs s).drop (first s), e.payload = ""
  | _ => True

instance (w : TailState) (a : TailAct) : Decidable (noRedisError w a) := by
  unfold noRedisError
  split <;> infer_instance

instance (t : StreamTailer) (w : TailState) (a : TailAct) :
    Decidable (nothingPassedOver t w a) := by
  unfold nothingPassedOver
  split <;> infer_instance

/-- Any streams, before the first iteration. -/
def connected (w : TailState) : Prop :=
  w.phase = .idle ∧ w.started = none ∧ w.published = [] ∧
    ∀ s, w.lastID s = .dollar ∧ w.received s = none

/-! ## Replies -/

/-- The messages of one stream in a reply. -/
def restOf (s : String) (rest : List XMessage) : List (Nat × Entry) :=
  (rest.filter (·.1 = s)).map (·.2)

theorem restOf_append (s : String) (xs ys : List XMessage) :
    restOf s (xs ++ ys) = restOf s xs ++ restOf s ys := by simp [restOf]

theorem restOf_block (s a : String) (es : List (Nat × Entry)) :
    restOf s (es.map (a, ·)) = if a = s then es else [] := by
  by_cases h : a = s <;> simp [restOf, List.filter_map, Function.comp_def, h]

theorem restOf_xread {names : List String} (hnd : names.Nodup) (cursors : String → Nat)
    (logs : String → List Entry) (s : String) :
    restOf s (xread names cursors logs) =
      if s ∈ names then (after (logs s) (cursors s)).take count else [] := by
  induction names with
  | nil => rfl
  | cons a names ih =>
    rw [List.nodup_cons] at hnd
    rw [xread, List.flatMap_cons, ← xread, restOf_append, restOf_block, ih hnd.2]
    by_cases h : a = s
    · subst h
      simp [hnd.1]
    · simp [h, Ne.symm h]

theorem restOf_xread_prefix {t : StreamTailer} {cursors : String → Nat}
    {logs : String → List Entry} {s : String} (hs : s ∈ t.streamNames) :
    restOf s (xread t.streamNames cursors logs) <+: after (logs s) (cursors s) := by
  rw [restOf_xread t.streamNames_nodup, if_pos hs]
  exact List.take_prefix ..

/-- `XREAD` waits only when every stream ends at its cursor. -/
theorem length_of_xread_nil {t : StreamTailer} {cursors : String → Nat}
    {logs : String → List Entry} (h : xread t.streamNames cursors logs = []) {s : String}
    (hs : s ∈ t.streamNames) : (logs s).length ≤ cursors s := by
  have hrest := restOf_xread t.streamNames_nodup cursors logs s
  rw [h, if_pos hs] at hrest
  by_contra hlt
  rw [after_of_getElem? (List.getElem?_eq_getElem (Nat.lt_of_not_le hlt))] at hrest
  cases hrest

/-! ## Invariant -/

theorem messages_append (t : StreamTailer) (s : String) (es fs : List Entry) :
    messages t s (es ++ fs) = messages t s es ++ messages t s fs := by simp [messages]

theorem messages_eq_nil {t : StreamTailer} {s : String} {es : List Entry}
    (h : ∀ e ∈ es, e.payload = "") : messages t s es = [] := by
  rw [messages, List.filter_eq_nil_iff.mpr fun e he => by simp [h e he]]
  rfl

/-- Of stream `s`, which had `first` entries, everything up to position `r` is
dealt with; with a concrete cursor, `r` is the cursor. -/
structure DoneTo (t : StreamTailer) (w : TailState) (s : String) (first r : Nat) : Prop where
  first_le : first ≤ r
  le_length : r ≤ (w.logs s).length
  published : w.publishedFor s = messages t s (between (w.logs s) first r)
  cursor : match w.lastID s with
    | .dollar => w.received s = none ∧ w.publishedFor s = []
    | .id n => w.received s = some n ∧ n = r

/-- Where the tailer stands with stream `s` in each phase. -/
def Tracks (t : StreamTailer) (w : TailState) (s : String) (first : Nat) : Prop :=
  match w.phase with
  | .idle | .stopped => ∃ r, DoneTo t w s first r
  | .blocked cursors => cursors s = (w.logs s).length ∧ DoneTo t w s first (cursors s)
  | .replied rest => ∃ r, DoneTo t w s first r ∧ restOf s rest <+: after (w.logs s) r

/-- No call has been issued yet. -/
structure Waiting (w : TailState) : Prop where
  phase : w.phase = .idle ∨ w.phase = .stopped
  published : w.published = []
  cursors : ∀ s, w.lastID s = .dollar ∧ w.received s = none

/-- The invariant. -/
inductive Tailing (t : StreamTailer) (w : TailState) : Prop
  | waiting (started : w.started = none) (h : Waiting w)
  | tracking {first : String → Nat} (started : w.started = some first)
      (h : ∀ s ∈ t.streamNames, Tracks t w s (first s))

theorem DoneTo.gapless {t : StreamTailer} {w : TailState} {s : String} {first r : Nat}
    (h : DoneTo t w s first r) : w.publishedFor s =
      match w.received s with
      | none => []
      | some n => messages t s (between (w.logs s) first n) := by
  have hc := h.cursor
  cases hid : w.lastID s with
  | dollar =>
    rw [hid] at hc
    rw [hc.1, hc.2]
  | id n =>
    rw [hid] at hc
    obtain ⟨hrec, rfl⟩ := hc
    rw [hrec]
    exact h.published

theorem Tracks.doneTo {t : StreamTailer} {w : TailState} {s : String} {first : Nat}
    (h : Tracks t w s first) : ∃ r, DoneTo t w s first r := by
  unfold Tracks at h
  split at h
  · exact h
  · exact h
  · exact ⟨_, h.2⟩
  · obtain ⟨r, hr, -⟩ := h
    exact ⟨r, hr⟩

theorem Tailing.gapless {t : StreamTailer} {w : TailState} (h : Tailing t w) : Gapless t w := by
  intro first hfirst s hs
  cases h with
  | waiting started _ =>
    rw [hfirst] at started
    cases started
  | tracking started h =>
    rw [hfirst] at started
    cases started
    obtain ⟨r, hr⟩ := (h s hs).doneTo
    exact hr.gapless

/-! ## Steps -/

section Steps

variable {t : StreamTailer} {w : TailState} {s : String} {first r : Nat}

/-- Only the logs, the cursors and what was published and received matter. -/
theorem DoneTo.congr (h : DoneTo t w s first r) {w' : TailState}
    (hlogs : w'.logs s = w.logs s) (hid : w'.lastID s = w.lastID s)
    (hrec : w'.received s = w.received s) (hpub : w'.publishedFor s = w.publishedFor s) :
    DoneTo t w' s first r := by
  refine ⟨h.first_le, hlogs ▸ h.le_length, ?_, ?_⟩
  · rw [hpub, hlogs]
    exact h.published
  · rw [hid, hrec, hpub]
    exact h.cursor

theorem prefix_update (w : TailState) (a : String) (e : Entry) (s : String) :
    w.logs s <+: Function.update w.logs a (w.logs a ++ [e]) s := by
  by_cases h : s = a
  · subst h
    rw [Function.update_self]
    exact List.prefix_append ..
  · have hsame : Function.update w.logs a (w.logs a ++ [e]) s = w.logs s :=
      Function.update_of_ne h ..
    exact hsame ▸ List.prefix_refl _

theorem DoneTo.grow (h : DoneTo t w s first r) {logs : String → List Entry} {phase : Phase}
    (hlogs : w.logs s <+: logs s) : DoneTo t { w with logs, phase } s first r :=
  ⟨h.first_le, Nat.le_trans h.le_length hlogs.length_le,
    h.published.trans (congrArg _ (between_grow hlogs h.le_length).symm), h.cursor⟩

/-- What a call that starts at the position dealt with finds of a stream. -/
theorem DoneTo.await (cursors : String → Nat) (h : DoneTo t w s first (cursors s))
    (hp : w.phase = await t.streamNames cursors w.logs) (hs : s ∈ t.streamNames) :
    Tracks t w s first := by
  unfold Tracks
  rw [hp, Gateway.await]
  cases hx : xread t.streamNames cursors w.logs with
  | nil => exact ⟨Nat.le_antisymm h.le_length (length_of_xread_nil hx hs), h⟩
  | cons m rest => exact ⟨_, h, hx ▸ restOf_xread_prefix hs⟩

theorem DoneTo.over (h : DoneTo t w s first r) (hp : w.phase = .idle ∨ w.phase = .stopped) :
    Tracks t w s first := by
  unfold Tracks
  obtain hp | hp := hp
  · rw [hp]
    exact ⟨r, h⟩
  · rw [hp]
    exact ⟨r, h⟩

theorem Tracks.append (h : Tracks t w s first) (hs : s ∈ t.streamNames) {a : String} {e : Entry}
    {w' : TailState} (hw : step t (.append a e) w = some w') : Tracks t w' s first := by
  have hlogs := prefix_update w a e s
  unfold Tracks at h
  cases hp : w.phase with
  | blocked cursors =>
    rw [hp] at h
    simp only [step, hp, Option.some.injEq] at hw
    subst hw
    exact DoneTo.await _ (h.2.grow hlogs) rfl hs
  | replied rest =>
    rw [hp] at h
    simp only [step, hp, Option.some.injEq] at hw
    subst hw
    obtain ⟨r, hr, hrest⟩ := h
    exact ⟨r, hr.grow hlogs, hrest.trans (after_mono hlogs hr.le_length)⟩
  | idle =>
    rw [hp] at h
    simp only [step, hp, Option.some.injEq] at hw
    subst hw
    obtain ⟨r, hr⟩ := h
    exact (hr.grow hlogs).over (.inl rfl)
  | stopped =>
    rw [hp] at h
    simp only [step, hp, Option.some.injEq] at hw
    subst hw
    obtain ⟨r, hr⟩ := h
    exact (hr.grow hlogs).over (.inr rfl)

theorem Tracks.congr (h : Tracks t w s first) {w' : TailState} (hp : w'.phase = w.phase)
    (hlogs : w'.logs s = w.logs s) (hdone : ∀ r, DoneTo t w s first r → DoneTo t w' s first r) :
    Tracks t w' s first := by
  unfold Tracks at h ⊢
  rw [hp, hlogs]
  revert h
  generalize w.phase = phase
  intro h
  cases phase with
  | blocked cursors => exact ⟨h.1, hdone _ h.2⟩
  | replied rest =>
    obtain ⟨r, hr, hrest⟩ := h
    exact ⟨r, hdone r hr, hrest⟩
  | _ =>
    obtain ⟨r, hr⟩ := h
    exact ⟨r, hdone r hr⟩

/-- A call issued with nothing passed over starts where the stream is dealt with. -/
theorem DoneTo.resolve (h : DoneTo t w s first r)
    (hnone : w.lastID s = .dollar → ∀ e ∈ (w.logs s).drop first, e.payload = "") :
    DoneTo t w s first ((w.lastID s).resolve (w.logs s).length) := by
  have hc := h.cursor
  cases hid : w.lastID s with
  | dollar =>
    rw [hid] at hc
    refine ⟨Nat.le_trans h.first_le h.le_length, Nat.le_refl _, ?_, by rw [hid]; exact hc⟩
    rw [hc.2, LastID.resolve, between, List.take_length, messages_eq_nil (hnone hid)]
  | id n =>
    rw [hid] at hc
    rw [LastID.resolve, hc.2]
    exact h

theorem publishedFor_deliver (id : Nat) (a : String) (e : Entry) :
    (deliver t w (a, id, e)).publishedFor s =
      w.publishedFor s ++ if a = s then messages t s [e] else [] := by
  by_cases ha : a = s <;> by_cases he : e.payload = "" <;>
    simp [TailState.publishedFor, deliver, messages, ha, he]

/-- The next message of a stream moves the position on by one. -/
theorem DoneTo.deliver (h : DoneTo t w s first r) {e : Entry}
    (he : (w.logs s)[r]? = some e) :
    DoneTo t (deliver t w (s, r + 1, e)) s first (r + 1) := by
  refine ⟨Nat.le_succ_of_le h.first_le, (List.getElem?_eq_some_iff.mp he).1, ?_, ?_⟩
  · rw [publishedFor_deliver, if_pos rfl, h.published]
    exact ((congrArg _ (between_succ he h.first_le)).trans (messages_append ..)).symm
  · simp only [Gateway.deliver, Function.update_self, and_self]

theorem Tracks.take (h : Tracks t w s first) {w' : TailState}
    (hw : step t .take w = some w') : Tracks t w' s first := by
  unfold Tracks at h
  cases hp : w.phase with
  | replied rest =>
    simp only [hp] at h
    obtain ⟨r, hr, hrest⟩ := h
    cases rest with
    | nil =>
      simp only [step, hp, Option.some.injEq] at hw
      subst hw
      have hidle : DoneTo t { w with phase := .idle } s first r := hr.congr rfl rfl rfl rfl
      exact ⟨r, hidle⟩
    | cons m rest =>
      simp only [step, hp, Option.some.injEq] at hw
      subst hw
      obtain ⟨a, id, e⟩ := m
      by_cases ha : a = s
      · subst ha
        rw [restOf, List.filter_cons_of_pos (by simp), List.map_cons] at hrest
        obtain ⟨rfl, he, hrest⟩ := prefix_after_cons hrest
        exact ⟨r + 1, (hr.deliver he).congr rfl rfl rfl rfl, hrest⟩
      · rw [restOf, List.filter_cons_of_neg (by simpa using ha)] at hrest
        refine ⟨r, hr.congr rfl ?_ ?_ ?_, hrest⟩
        · exact Function.update_of_ne (Ne.symm ha) ..
        · exact Function.update_of_ne (Ne.symm ha) ..
        · exact (publishedFor_deliver id a e).trans (by rw [if_neg ha, List.append_nil])
  | _ => simp only [step, hp, reduceCtorEq] at hw

theorem Tailing.iterate (h : Tailing t w) (hok : nothingPassedOver t w .iterate) {w' : TailState}
    (hw : step t .iterate w = some w') : Tailing t w' := by
  have hidle : w.phase = .idle := by
    cases hp : w.phase <;> simp only [step, hp, reduceCtorEq] at hw
    rfl
  by_cases hc : w.cancelled = true
  · obtain rfl : { w with phase := .stopped } = w' := by simpa [step, hidle, hc] using hw
    cases h with
    | waiting started h => exact .waiting started ⟨.inr rfl, h.published, h.cursors⟩
    | tracking started h =>
      refine .tracking started fun s hs => ?_
      obtain ⟨r, hr⟩ := (h s hs).doneTo
      exact DoneTo.over (hr.congr rfl rfl rfl rfl) (.inr rfl)
  · obtain rfl : { w with
        started := w.started <|> some fun s => (w.logs s).length
        phase := await t.streamNames (fun s => (w.lastID s).resolve (w.logs s).length) w.logs } =
        w' := by simpa [step, hidle, hc] using hw
    cases h with
    | waiting started h =>
      -- the first call: every cursor is `$`, and nothing is due yet
      refine @Tailing.tracking t _ (fun s => (w.logs s).length) (by simp [started]) fun s hs => ?_
      obtain ⟨hid, hrec⟩ := h.cursors s
      have hpub : w.publishedFor s = [] := by simp [TailState.publishedFor, h.published]
      have hdone : DoneTo t w s (w.logs s).length (w.logs s).length :=
        ⟨Nat.le_refl _, Nat.le_refl _, by simp [hpub, messages], by rw [hid]; exact ⟨hrec, hpub⟩⟩
      refine DoneTo.await (fun s => (w.lastID s).resolve (w.logs s).length) ?_ rfl hs
      simp only [hid, LastID.resolve]
      exact hdone.congr rfl rfl rfl rfl
    | @tracking first started h =>
      refine @Tailing.tracking t _ first (by simp [started]) fun s hs => ?_
      obtain ⟨r, hr⟩ := (h s hs).doneTo
      exact DoneTo.await (fun s => (w.lastID s).resolve (w.logs s).length)
        ((hr.resolve (hok first started s hs)).congr rfl rfl rfl rfl) rfl hs

/-- The steps other than an iteration leave the start of the records alone. -/
theorem step_started {a : TailAct} (ha : a ≠ .iterate) {w' : TailState}
    (hw : step t a w = some w') : w'.started = w.started := by
  cases a with
  | iterate => exact absurd rfl ha
  | cancel => cases hw; rfl
  | take =>
    cases hp : w.phase with
    | replied rest => cases rest <;> simp only [step, hp, Option.some.injEq] at hw <;> subst hw <;> rfl
    | _ => simp only [step, hp, reduceCtorEq] at hw
  | _ =>
    cases hp : w.phase <;> simp only [step, hp, reduceCtorEq, Option.some.injEq] at hw <;>
      subst hw <;> rfl

theorem Waiting.step (h : Waiting w) {a : TailAct} (ha : a ≠ .iterate) {w' : TailState}
    (hw : step t a w = some w') : Waiting w' := by
  obtain ⟨hphase, hpub, hcur⟩ := h
  cases a with
  | iterate => exact absurd rfl ha
  | cancel => cases hw; exact ⟨hphase, hpub, hcur⟩
  | append a e =>
    obtain hp | hp := hphase <;> simp only [Gateway.step, hp, Option.some.injEq] at hw <;> subst hw
    · exact ⟨.inl rfl, hpub, hcur⟩
    · exact ⟨.inr rfl, hpub, hcur⟩
  | error =>
    obtain hp | hp := hphase <;>
      simp only [Gateway.step, hp, reduceCtorEq, Option.some.injEq] at hw
    subst hw
    refine ⟨?_, hpub, hcur⟩
    by_cases hc : w.cancelled = true <;> simp [hc]
  | _ => obtain hp | hp := hphase <;> simp only [Gateway.step, hp, reduceCtorEq] at hw

theorem Tailing.step {a : TailAct} (h : Tailing t w) (herr : noRedisError w a)
    (hok : nothingPassedOver t w a) {w' : TailState} (hw : step t a w = some w') :
    Tailing t w' := by
  by_cases ha : a = .iterate
  · subst ha
    exact h.iterate hok hw
  have hsame := step_started ha hw
  cases h with
  | waiting started h => exact .waiting (hsame.trans started) (h.step ha hw)
  | tracking started h =>
    refine .tracking (hsame.trans started) fun s hs => ?_
    cases a with
    | iterate => exact absurd rfl ha
    | error => exact herr.elim
    | append a e => exact (h s hs).append hs hw
    | take => exact (h s hs).take hw
    | timeout =>
      obtain ⟨r, hr⟩ := (h s hs).doneTo
      cases hp : w.phase with
      | blocked cursors =>
        simp only [Gateway.step, hp, Option.some.injEq] at hw
        subst hw
        exact DoneTo.over (hr.congr rfl rfl rfl rfl) (.inl rfl)
      | _ => simp only [Gateway.step, hp, reduceCtorEq] at hw
    | cancel =>
      cases hw
      exact (h s hs).congr rfl rfl fun _ hr => hr.congr rfl rfl rfl rfl

end Steps

/-- **The tailer loses nothing while no call passes an event over.** In every
run without a Redis error in which `XREAD` is issued with `$` only for streams
that have had no event since it was first issued, the broker was given exactly
the events of each stream since then, in order and once each, up to the last
entry received. -/
theorem tailer_gapless {t : StreamTailer} {w : TailState}
    (h : Reach (step t) (fun w a => noRedisError w a ∧ nothingPassedOver t w a) connected w) :
    Gapless t w := by
  refine Tailing.gapless ?_
  refine h.invariant (fun w hw => ?_) fun w a w' hI hok hs => hI.step hok.1 hok.2 hs
  obtain ⟨hphase, hstarted, hpub, hcur⟩ := hw
  exact .waiting hstarted ⟨.inl hphase, hpub, hcur⟩

/-! ## Schedules -/

/-- The two streams of the gateway. -/
def gateway : StreamTailer where
  streams := [("market.ticks", "ticks"), ("risk.updates", "risk")]
  nodup := by decide

def event (data : String) : Entry := ⟨[("event", data)]⟩

/-- Two streams with nothing on them. -/
def atConnect : TailState where
  logs _ := []
  cancelled := false
  lastID _ := .dollar
  phase := .idle
  published := []
  started := none
  received _ := none

theorem atConnect_connected : connected atConnect := ⟨rfl, rfl, rfl, fun _ => ⟨rfl, rfl⟩⟩

/-- A tick wakes the first call, two entries come while it is handled, and the
second call finds both. -/
def busyTicks : List TailAct :=
  [.iterate, .append "market.ticks" (event "a"), .take, .append "market.ticks" (event "b"),
    .append "market.ticks" ⟨[]⟩, .take, .iterate, .take, .take, .take]

theorem tailer_gapless_busyTicks : ∃ w : TailState,
    w.publishedFor "market.ticks" = [⟨"ticks", "a"⟩, ⟨"ticks", "b"⟩] ∧ Gapless gateway w := by
  obtain ⟨w, hw, hp⟩ := Reach.exists_of_run (step gateway)
    (fun w a => noRedisError w a ∧ nothingPassedOver gateway w a) connected busyTicks
    (fun w => w.publishedFor "market.ticks" = [⟨"ticks", "a"⟩, ⟨"ticks", "b"⟩]) (s := atConnect)
    atConnect_connected (by decide +kernel)
  exact ⟨w, of_decide_eq_true hp, tailer_gapless hw⟩

/-- The first call times out, an event comes before the second is issued, and
the second delivers the one after it. -/
def eventBetweenCalls : List TailAct :=
  [.iterate, .timeout, .append "risk.updates" (event "lost"), .iterate,
    .append "risk.updates" (event "next"), .take]

/-- An event that arrives between two calls, on a stream that has delivered
nothing yet, is lost. -/
theorem tailer_can_skip : ∃ w : TailState, Reach (step gateway) noRedisError connected w ∧
    ¬ Gapless gateway w := by
  obtain ⟨w, hw, hp⟩ := Reach.exists_of_run (step gateway) noRedisError
    connected eventBetweenCalls
    (fun w => (w.started.map (· "risk.updates")) = some 0 ∧
      w.publishedFor "risk.updates" = [⟨"risk", "next"⟩] ∧ w.received "risk.updates" = some 2 ∧
      w.logs "risk.updates" = [event "lost", event "next"])
    (s := atConnect) atConnect_connected (by decide +kernel)
  obtain ⟨hfirst, hpub, hrec, hlogs⟩ := of_decide_eq_true hp
  refine ⟨w, hw, fun h => ?_⟩
  obtain ⟨first, hstarted, hzero⟩ := Option.map_eq_some_iff.mp hfirst
  have hrisk := h first hstarted "risk.updates" (by decide)
  rw [hpub, hrec, hlogs, hzero] at hrisk
  revert hrisk
  decide +kernel

end TradePulse.Gateway
