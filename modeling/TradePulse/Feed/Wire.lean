import TradePulse.Gateway.Broker
import TradePulse.Gateway.Sse

/-! # A response that is still being read

The bytes of `sseHandler` for the messages of the broker, and what an event
source has dispatched when some of them have arrived: however they are cut, the
first messages, each one whole. -/
namespace TradePulse.Feed
open TradePulse.Core TradePulse.Core.EventStream TradePulse.Gateway

/-- What the handler writes in a round of its `select`: a message, or a
keep-alive. -/
abbrev Written := Option Message

def Written.bytes : Written → Bytes
  | some msg => messageBytes msg.Event (bytesOf msg.Data)
  | none => keepAliveBytes

/-- The body of the response so far. -/
def body (ws : List Written) : Bytes := bodyOf (ws.map Written.bytes)

/-- The messages among what was written. -/
def messagesIn (ws : List Written) : List Message := ws.filterMap id

/-- What the listeners of the page are given for a message. -/
def dispatched (msg : Message) : Dispatched := (msg.Event.toList, msg.Data.toList)

/-- A message of a configured stream, on one line. -/
structure Sound (msg : Message) : Prop where
  event : msg.Event ∈ eventNames
  line : OneLine msg.Data.toList

theorem messagesIn_append (ws vs : List Written) :
    messagesIn (ws ++ vs) = messagesIn ws ++ messagesIn vs := List.filterMap_append ..

theorem body_append (ws vs : List Written) :
    body (ws ++ vs) = body ws ++ (vs.map Written.bytes).flatten := by
  rw [body, bodyOf, List.map_append, List.flatten_append, body, bodyOf, List.append_assoc]

/-- The body of a longer response. -/
theorem body_mono (ws vs : List Written) : body ws <+: body (ws ++ vs) := by
  rw [body_append]
  exact List.prefix_append ..

theorem Sound.name {msg : Message} (h : Sound msg) :
    msg.Event.toList ≠ [] ∧ OneLine msg.Event.toList := by
  have hmem := h.event
  simp only [eventNames, List.mem_cons, List.not_mem_nil, or_false] at hmem
  rcases hmem with h | h <;> rw [h] <;> decide

/-- What was written, as text, and what it dispatches. -/
theorem text_of_written {ws : List Written} (h : ∀ msg ∈ messagesIn ws, Sound msg) :
    ∃ text, Utf8.encode text = (ws.map Written.bytes).flatten ∧
      dispatches empty (lines text) = (messagesIn ws).map dispatched := by
  induction ws with
  | nil => exact ⟨[], rfl, rfl⟩
  | cons w ws ih =>
    cases w with
    | none =>
      obtain ⟨text, htext, hparse⟩ := ih h
      refine ⟨':' :: " keep-alive".toList ++ '\n' :: '\n' :: text, ?_, ?_⟩
      · rw [List.map_cons, List.flatten_cons, ← htext]
        exact encode_keepAlive text
      · rw [parse_comment text (by decide)]
        exact hparse
    | some msg =>
      have hmsg := h msg List.mem_cons_self
      obtain ⟨text, htext, hparse⟩ := ih fun m hm => h m (List.mem_cons_of_mem _ hm)
      obtain ⟨hne, hline⟩ := hmsg.name
      refine ⟨block msg.Event.toList msg.Data.toList text, ?_, ?_⟩
      · rw [List.map_cons, List.flatten_cons, ← htext]
        exact encode_block msg.Event msg.Data.toList text
      · rw [parse_line text hne hline hmsg.line, hparse]
        rfl

/-- A sequence of bytes that is not at its end shows in no event. -/
theorem eventSource_eq {bs : Bytes} (hmark : ∀ rest, bs ≠ 0xEF :: 0xBB :: 0xBF :: rest) :
    eventSource bs = parse (Utf8.decodedFrom Utf8.idle bs) := by
  have hplain : Utf8.decode bs = Utf8.decodeFrom Utf8.idle bs := by
    unfold Utf8.decode
    split
    · exact absurd rfl (hmark _)
    · rfl
  rw [eventSource, hplain]
  obtain h | h := Utf8.decodeFrom_eq Utf8.idle bs
  · rw [h]
  · rw [h, parse_unended _ (by decide)]

/-- Bytes that are still arriving dispatch more events, after those dispatched. -/
theorem eventSource_mono {bs bs' : Bytes} (hmark : ∀ rest, bs' ≠ 0xEF :: 0xBB :: 0xBF :: rest)
    (h : bs <+: bs') : eventSource bs <+: eventSource bs' := by
  have hmark' : ∀ rest, bs ≠ 0xEF :: 0xBB :: 0xBF :: rest := by
    rintro rest rfl
    obtain ⟨more, hmore⟩ := h
    exact hmark (rest ++ more) hmore.symm
  rw [eventSource_eq hmark, eventSource_eq hmark']
  exact parse_mono (Utf8.decodedFrom_mono _ h)

/-- The text of a response. -/
theorem text_of_body {ws : List Written} (h : ∀ msg ∈ messagesIn ws, Sound msg) :
    ∃ text, body ws = Utf8.encode (':' :: text) ∧
      parse (':' :: text) = (messagesIn ws).map dispatched := by
  obtain ⟨text, htext, hparse⟩ := text_of_written h
  refine ⟨" connected".toList ++ '\n' :: '\n' :: text, ?_, ?_⟩
  · exact (encode_connected htext).symm
  · rw [← List.cons_append, parse, parse_comment text (by decide), hparse]

/-- All bytes of a response dispatch all of its messages. -/
theorem eventSource_body {ws : List Written} (h : ∀ msg ∈ messagesIn ws, Sound msg) :
    eventSource (body ws) = (messagesIn ws).map dispatched := by
  obtain ⟨text, hbody, hparse⟩ := text_of_body h
  rw [eventSource, hbody, Utf8.decode_encode (fun rest => hbody ▸ bodyOf_no_mark), hparse]

theorem take_body_no_mark {ws : List Written} {n : Nat} {rest : Bytes} :
    (body ws).take n ≠ 0xEF :: 0xBB :: 0xBF :: rest := by
  intro hmark
  obtain ⟨more, hmore⟩ := List.take_prefix n (body ws)
  rw [hmark] at hmore
  exact bodyOf_no_mark hmore.symm

/-- More bytes dispatch more events. -/
theorem eventSource_take_mono (ws : List Written) {n m : Nat} (h : n ≤ m) :
    eventSource ((body ws).take n) <+: eventSource ((body ws).take m) :=
  eventSource_mono (fun _ => take_body_no_mark) (List.take_prefix_take_left h)

/-- **What has been dispatched of a response.** However many of its bytes have
arrived, the events dispatched are the first of its messages. -/
theorem eventSource_take_body {ws : List Written} (h : ∀ msg ∈ messagesIn ws, Sound msg)
    (n : Nat) : eventSource ((body ws).take n) <+: (messagesIn ws).map dispatched := by
  rw [← eventSource_body h]
  exact eventSource_mono (fun _ => bodyOf_no_mark) (List.take_prefix n _)

/-- What has arrived stays as it is when more is written. -/
theorem take_body_append (ws vs : List Written) {n : Nat} (hn : n ≤ (body ws).length) :
    (body (ws ++ vs)).take n = (body ws).take n := by
  rw [body_append, List.take_append_of_le_length hn]

end TradePulse.Feed
