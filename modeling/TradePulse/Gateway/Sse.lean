import TradePulse.Core.EventStream
import TradePulse.Core.Utf8

/-! # `sseHandler`

The handler writes an event and its payload between line ends and leaves the
payload as it is. An event source reads the payload back when it is text on one
line; a line end in it ends the data there, and bytes that are not UTF-8 are
replaced. -/
namespace TradePulse.Gateway
open TradePulse.Core TradePulse.Core.EventStream

/-! ## Model -/

/-- A Go string. -/
abbrev Bytes := List UInt8

def bytesOf (s : String) : Bytes := Utf8.encode s.toList

/-- The event names of the streams that `main` configures. -/
def eventNames : List String := ["ticks", "risk"]

/-- A broker message, its payload as Redis returned it. -/
structure SseMessage where
  Event : String
  configured : Event ∈ eventNames
  Data : Bytes

/-- An event and its payload, as the handler writes them. -/
def messageBytes (event : String) (data : Bytes) : Bytes :=
  bytesOf "event: " ++ bytesOf event ++ bytesOf "\ndata: " ++ data ++ bytesOf "\n\n"

def keepAliveBytes : Bytes := bytesOf ": keep-alive\n\n"

/-- The body of a response, of what the rounds of the `select` write. -/
def bodyOf (rounds : List Bytes) : Bytes := bytesOf ": connected\n\n" ++ rounds.flatten

/-- What the handler writes after one round of its `select`. -/
inductive SseWrite where
  | message (msg : SseMessage)
  | keepAlive

def SseWrite.bytes : SseWrite → Bytes
  | .message msg => messageBytes msg.Event msg.Data
  | .keepAlive => keepAliveBytes

def responseBody (ws : List SseWrite) : Bytes := bodyOf (ws.map SseWrite.bytes)

/-! ## Statement -/

def messagesOf (ws : List SseWrite) : List SseMessage :=
  ws.filterMap fun
    | .message msg => some msg
    | .keepAlive => none

/-- The browser's event source on the bytes of a response. -/
def eventSource (body : Bytes) : List Dispatched := parse (Utf8.decode body)

/-- The browser gets exactly the messages, name by name and byte by byte. -/
def RoundTrips (ws : List SseWrite) : Prop :=
  (eventSource (responseBody ws)).map (fun e => (Utf8.encode e.1, Utf8.encode e.2)) =
    (messagesOf ws).map fun msg => (bytesOf msg.Event, msg.Data)

instance (ws : List SseWrite) : Decidable (RoundTrips ws) := inferInstanceAs (Decidable (_ = _))

/-- UTF-8 text on one line. -/
def IsLine (payload : Bytes) : Prop := ∃ cs, Utf8.encode cs = payload ∧ OneLine cs

/-! ## Blocks -/

section Blocks

variable {e d : List Char} (more : List Char)

/-- The block of a message, as text. -/
def block (e d more : List Char) : List Char :=
  "event: ".toList ++ e ++ '\n' :: ("data: ".toList ++ d ++ '\n' :: '\n' :: more)

/-- The event line. -/
theorem collect_event (ls : List (List Char)) :
    dispatches empty (("event: ".toList ++ e) :: ls) = dispatches ⟨e, []⟩ ls := by
  have hcollect : empty.collect ("event: ".toList ++ e) = ⟨e, []⟩ := by
    simp [Buffers.collect, fieldOf, valueOf, empty]
  exact congrArg (dispatches · ls) hcollect

/-- The data line. -/
theorem collect_data (ls : List (List Char)) :
    dispatches ⟨e, []⟩ (("data: ".toList ++ d) :: ls) = dispatches ⟨e, d ++ ['\n']⟩ ls := by
  have hcollect : Buffers.collect ⟨e, []⟩ ("data: ".toList ++ d) = ⟨e, d ++ ['\n']⟩ := by
    simp [Buffers.collect, fieldOf, valueOf]
  exact congrArg (dispatches · ls) hcollect

theorem oneLine_append {l : List Char} (h : OneLine l) {cs : List Char} (hcs : OneLine cs) :
    OneLine (l ++ cs) := by
  intro c hc
  rcases List.mem_append.mp hc with hc | hc
  · exact h c hc
  · exact hcs c hc

/-- The lines of a block, up to its payload. -/
theorem dispatches_block (hline : OneLine e) (d : List Char) :
    dispatches empty (lines (block e d more)) =
      dispatches ⟨e, []⟩ (linesFrom false "data: ".toList (d ++ '\n' :: '\n' :: more)) := by
  have hfield : OneLine "event: ".toList := by decide
  have hevent : OneLine ("event: ".toList ++ e) := oneLine_append hfield hline
  have hdata : OneLine "data: ".toList := by decide
  unfold block
  rw [lines_line hevent, collect_event, lines, List.append_assoc,
    linesFrom_append hdata [] _ (.inr rfl), List.nil_append]

/-- A payload on one line is read back. -/
theorem parse_line (he : e ≠ []) (hline : OneLine e) (hd : OneLine d) :
    dispatches empty (lines (block e d more)) = (e, d) :: dispatches empty (lines more) := by
  rw [dispatches_block more hline, linesFrom_append hd _ _ (.inr rfl), linesFrom]
  simp only [if_true, Bool.false_eq_true, if_false]
  rw [collect_data, linesFrom]
  simp only [if_true, Bool.false_eq_true, if_false]
  rw [dispatches_blank (by simp)]
  simp [he, lines]

/-- A text that is not on one line up to its first line end. -/
theorem not_oneLine (hd : ¬ OneLine d) :
    ∃ l c u, d = l ++ c :: u ∧ OneLine l ∧ (c = '\n' ∨ c = '\r') := by
  induction d with
  | nil => exact absurd (fun c hc => absurd hc List.not_mem_nil) hd
  | cons c d ih =>
    by_cases hc : c = '\n' ∨ c = '\r'
    · exact ⟨[], c, d, rfl, fun c hc => absurd hc List.not_mem_nil, hc⟩
    · rw [not_or] at hc
      have hrest : ¬ OneLine d := by
        intro h
        refine hd fun x hx => ?_
        rcases List.mem_cons.mp hx with rfl | hx
        · exact hc
        · exact h x hx
      obtain ⟨l, x, u, rfl, hl, hx⟩ := ih hrest
      refine ⟨c :: l, x, u, rfl, fun y hy => ?_, hx⟩
      rcases List.mem_cons.mp hy with rfl | hy
      · exact hc
      · exact hl y hy

/-- A payload with a line end is cut there: the event dispatched in its place
has less data. -/
theorem parse_broken (hline : OneLine e) (hd : ¬ OneLine d) :
    ∃ ev es, dispatches empty (lines (block e d more)) = ev :: es ∧ ev.2.length < d.length := by
  obtain ⟨l, c, u, rfl, hl, hc⟩ := not_oneLine hd
  have hfirst : linesFrom false "data: ".toList ((l ++ c :: u) ++ '\n' :: '\n' :: more) =
      ("data: ".toList ++ l) :: linesFrom (c = '\r') [] (u ++ '\n' :: '\n' :: more) := by
    rw [List.append_assoc, linesFrom_append hl _ _ (.inr rfl), List.cons_append, linesFrom]
    rcases hc with rfl | rfl <;> rfl
  obtain ⟨ls, tail, hls, hlen⟩ := linesFrom_blank u more [] (c = '\r') fun _ => rfl
  obtain ⟨ev, es, hev, hshort⟩ := dispatches_length (b := ⟨e, l ++ ['\n']⟩) (by simp) ls tail
  refine ⟨ev, es, ?_, ?_⟩
  · rw [dispatches_block more hline, hfirst, collect_data, hls, hev]
  · simp only [List.length_append, List.length_cons, List.length_nil] at hlen hshort ⊢
    omega

/-- A comment is passed over. -/
theorem parse_comment {l : List Char} (hl : OneLine l) :
    dispatches empty (lines (':' :: l ++ '\n' :: '\n' :: more)) = dispatches empty (lines more) := by
  have hline : OneLine (':' :: l) := by
    intro c hc
    rcases List.mem_cons.mp hc with rfl | hc
    · decide
    · exact hl c hc
  have hblank : lines ('\n' :: more) = [] :: lines more := lines_line (l := []) (by decide) more
  rw [lines_line hline, hblank]
  rfl

end Blocks

/-! ## Text and bytes -/

theorem encode_block (event : String) (d more : List Char) :
    Utf8.encode (block event.toList d more) =
      messageBytes event (Utf8.encode d) ++ Utf8.encode more := by
  simp only [messageBytes, bytesOf, ← Utf8.encode_append]
  refine congrArg Utf8.encode ?_
  unfold block
  simp

theorem encode_keepAlive (more : List Char) :
    Utf8.encode (':' :: " keep-alive".toList ++ '\n' :: '\n' :: more) =
      keepAliveBytes ++ Utf8.encode more := by
  rw [keepAliveBytes, bytesOf, ← Utf8.encode_append]
  exact congrArg Utf8.encode (by simp)

/-- A body whose rounds are text. -/
theorem encode_connected {rounds : List Bytes} {text : List Char}
    (h : Utf8.encode text = rounds.flatten) :
    Utf8.encode (':' :: " connected".toList ++ '\n' :: '\n' :: text) = bodyOf rounds := by
  rw [bodyOf, ← h, bytesOf, ← Utf8.encode_append]
  exact congrArg Utf8.encode (by simp)

theorem bodyOf_no_mark {rounds : List Bytes} {rest : Bytes} :
    bodyOf rounds ≠ 0xEF :: 0xBB :: 0xBF :: rest := by
  intro hmark
  have hfirst : some (58 : UInt8) = some 0xEF := congrArg List.head? hmark
  exact absurd hfirst (by decide)

/-! ## Messages -/

theorem encode_injective {cs ds : List Char} (h : Utf8.encode cs = Utf8.encode ds) : cs = ds := by
  have hcs := Utf8.decodeFrom_encode cs []
  rw [h, Utf8.decodeFrom_encode ds []] at hcs
  simpa [Utf8.decodeFrom, Utf8.idle] using hcs.symm

theorem event_name (msg : SseMessage) : msg.Event.toList ≠ [] ∧ OneLine msg.Event.toList := by
  have h := msg.configured
  simp only [eventNames, List.mem_cons, List.not_mem_nil, or_false] at h
  rcases h with h | h <;> rw [h] <;> decide

/-- The handler's writes as text, when the payloads are text. -/
theorem written_text (ws : List SseWrite)
    (h : ∀ msg ∈ messagesOf ws, ∃ d, Utf8.encode d = msg.Data) :
    ∃ text, Utf8.encode text = (ws.map SseWrite.bytes).flatten ∧
      ((dispatches empty (lines text)).map (fun e => (Utf8.encode e.1, Utf8.encode e.2)) =
        (messagesOf ws).map (fun msg => (bytesOf msg.Event, msg.Data)) ↔
      ∀ msg ∈ messagesOf ws, IsLine msg.Data) := by
  induction ws with
  | nil =>
    refine ⟨[], rfl, fun _ msg hmsg => ?_, fun _ => rfl⟩
    cases hmsg
  | cons w ws ih =>
    cases w with
    | keepAlive =>
      obtain ⟨text, htext, hiff⟩ := ih h
      refine ⟨':' :: " keep-alive".toList ++ '\n' :: '\n' :: text, ?_, ?_⟩
      · rw [List.map_cons, List.flatten_cons, ← htext]
        exact encode_keepAlive text
      · rw [parse_comment text (by decide)]
        exact hiff
    | message msg =>
      obtain ⟨d, hd⟩ := h msg List.mem_cons_self
      obtain ⟨text, htext, hiff⟩ := ih fun m hm => h m (List.mem_cons_of_mem _ hm)
      obtain ⟨he, hline⟩ := event_name msg
      refine ⟨block msg.Event.toList d text, ?_, ?_⟩
      · rw [List.map_cons, List.flatten_cons, ← htext, encode_block, hd]
        rfl
      · by_cases hd' : OneLine d
        · have hmsg : IsLine msg.Data := ⟨d, hd, hd'⟩
          rw [parse_line text he hline hd']
          simp only [messagesOf, List.filterMap_cons, List.map_cons, List.forall_mem_cons, hmsg,
            true_and, hd, bytesOf, List.cons.injEq]
          exact hiff
        · obtain ⟨ev, es, hev, hlen⟩ := parse_broken text hline hd'
          rw [hev]
          constructor
          · intro heq
            simp only [messagesOf, List.filterMap_cons, List.map_cons, List.cons.injEq,
              Prod.mk.injEq] at heq
            have hsame := encode_injective (heq.1.2.trans hd.symm)
            rw [hsame] at hlen
            exact absurd hlen (Nat.lt_irrefl _)
          · intro hall
            obtain ⟨d', hd'', hone⟩ := hall msg List.mem_cons_self
            have hsame := encode_injective (hd''.trans hd.symm)
            exact absurd (hsame ▸ hone) hd'

/-- **What an event source reads back.** Whatever messages the handler writes,
with keep-alives wherever they fall, the browser gets exactly these messages if
and only if every payload is UTF-8 text on one line. -/
theorem round_trips_iff (ws : List SseWrite) :
    RoundTrips ws ↔ ∀ msg ∈ messagesOf ws, IsLine msg.Data := by
  by_cases htext : ∀ msg ∈ messagesOf ws, ∃ d, Utf8.encode d = msg.Data
  · obtain ⟨text, hbytes, hiff⟩ := written_text ws htext
    have hbody := encode_connected hbytes
    rw [RoundTrips, eventSource, responseBody, ← hbody,
      Utf8.decode_encode (fun rest => hbody ▸ bodyOf_no_mark), parse, parse_comment text (by decide)]
    exact hiff
  · refine ⟨fun h => absurd (fun msg hmsg => ?_) htext, fun h => absurd (fun msg hmsg => ?_) htext⟩
    · -- data that was dispatched is text
      have hmem : (bytesOf msg.Event, msg.Data) ∈
          (messagesOf ws).map fun msg => (bytesOf msg.Event, msg.Data) :=
        List.mem_map_of_mem hmsg
      rw [← h, List.mem_map] at hmem
      obtain ⟨e, -, he⟩ := hmem
      exact ⟨e.2, congrArg Prod.snd he⟩
    · obtain ⟨d, hd, -⟩ := h msg hmsg
      exact ⟨d, hd⟩

/-- A payload over two lines. -/
def twoLinePayload : List SseWrite :=
  [.message ⟨"ticks", by decide, bytesOf "\x7b\n\"symbol\": \"AAPL\"\x7d"⟩]

theorem line_end_cuts_payload : ¬ RoundTrips twoLinePayload := by
  decide +kernel

end TradePulse.Gateway
