import Mathlib.Data.List.Basic

/-! # UTF-8

The decoder of the Encoding Standard, one byte at a time, which replaces what
is malformed, against the encoding of scalar values. On what the encoding
yields the decoder is its inverse. -/
namespace TradePulse.Core.Utf8

def encode (cs : List Char) : List UInt8 := cs.flatMap String.utf8EncodeChar

/-- U+FFFD -/
def replacement : Char := Char.ofNat 0xFFFD

/-- How many continuation bytes are needed, the code point so far, and the
range of the next byte. -/
structure State where
  needed : Nat
  codePoint : Nat
  lower : Nat
  upper : Nat

def idle : State := ⟨0, 0, 0x80, 0xBF⟩

/-- The first byte of a sequence. -/
def first (b : Nat) : List Char × State :=
  if b ≤ 0x7F then ([Char.ofNat b], idle)
  else if 0xC2 ≤ b ∧ b ≤ 0xDF then ([], ⟨1, b - 0xC0, 0x80, 0xBF⟩)
  else if b = 0xE0 then ([], ⟨2, 0, 0xA0, 0xBF⟩)
  else if b = 0xED then ([], ⟨2, 0xD, 0x80, 0x9F⟩)
  else if 0xE1 ≤ b ∧ b ≤ 0xEF then ([], ⟨2, b - 0xE0, 0x80, 0xBF⟩)
  else if b = 0xF0 then ([], ⟨3, 0, 0x90, 0xBF⟩)
  else if b = 0xF4 then ([], ⟨3, 4, 0x80, 0x8F⟩)
  else if 0xF1 ≤ b ∧ b ≤ 0xF3 then ([], ⟨3, b - 0xF0, 0x80, 0xBF⟩)
  else ([replacement], idle)

/-- One byte. A byte out of range ends the sequence and starts another. -/
def step (s : State) (b : Nat) : List Char × State :=
  if s.needed = 0 then first b
  else if b < s.lower ∨ s.upper < b then
    let r := first b
    (replacement :: r.1, r.2)
  else
    let codePoint := s.codePoint * 64 + (b - 0x80)
    if s.needed = 1 then ([Char.ofNat codePoint], idle)
    else ([], ⟨s.needed - 1, codePoint, 0x80, 0xBF⟩)

def decodeFrom : State → List UInt8 → List Char
  | s, [] => if s.needed = 0 then [] else [replacement]
  | s, b :: bs => (step s b.toNat).1 ++ decodeFrom (step s b.toNat).2 bs

/-- UTF-8 decode, without a byte order mark. -/
def decode : List UInt8 → List Char
  | 0xEF :: 0xBB :: 0xBF :: bs => decodeFrom idle bs
  | bs => decodeFrom idle bs

/-- The decoder that refuses what is malformed: only encodings are read. -/
def decodeStrict (bs : List UInt8) : Option (List Char) :=
  if encode (decodeFrom idle bs) = bs then some (decodeFrom idle bs) else none

@[simp] theorem encode_nil : encode [] = [] := rfl

theorem encode_cons (c : Char) (cs : List Char) :
    encode (c :: cs) = String.utf8EncodeChar c ++ encode cs := rfl

@[simp] theorem encode_append (cs ds : List Char) :
    encode (cs ++ ds) = encode cs ++ encode ds := List.flatMap_append ..

section Step

variable {s : State} {b : UInt8} {bs : List UInt8}

theorem decodeFrom_emit {c : Char} {n : Nat} (hb : b.toNat = n) (h : step s n = ([c], idle)) :
    decodeFrom s (b :: bs) = c :: decodeFrom idle bs := by
  rw [decodeFrom, hb, h]
  rfl

theorem decodeFrom_more {t : State} {n : Nat} (hb : b.toNat = n) (h : step s n = ([], t)) :
    decodeFrom s (b :: bs) = decodeFrom t bs := by
  rw [decodeFrom, hb, h]
  rfl

/-- A continuation byte. -/
theorem step_more {n cp lo hi v : Nat} (hn : n ≠ 0) (hlo : lo ≤ v % 64 + 0x80)
    (hhi : v % 64 + 0x80 ≤ hi) : step ⟨n + 1, cp, lo, hi⟩ (v % 64 + 0x80) =
      ([], ⟨n, cp * 64 + v % 64, 0x80, 0xBF⟩) := by
  simp only [step]
  rw [if_neg (by omega), if_neg (by omega), if_neg (by omega)]
  simp

/-- The last one. -/
theorem step_last {cp lo hi v : Nat} (hlo : lo ≤ v % 64 + 0x80) (hhi : v % 64 + 0x80 ≤ hi) :
    step ⟨1, cp, lo, hi⟩ (v % 64 + 0x80) = ([Char.ofNat (cp * 64 + v % 64)], idle) := by
  simp only [step]
  rw [if_neg (by omega), if_neg (by omega), if_pos trivial]
  simp

theorem step_idle (n : Nat) : step idle n = first n := rfl

end Step

/-- The continuation bytes that may follow the first one. -/
theorem first_three {v : Nat} (hlo : 0x7FF < v) (hhi : v ≤ 0xFFFF)
    (hscalar : v < 0xD800 ∨ 0xDFFF < v) : ∃ lo hi, step idle (v / 4096 % 16 + 0xE0) =
      ([], ⟨2, v / 4096, lo, hi⟩) ∧ lo ≤ v / 64 % 64 + 0x80 ∧ v / 64 % 64 + 0x80 ≤ hi := by
  rw [step_idle]
  unfold first
  rw [if_neg (by omega), if_neg (by omega)]
  by_cases h0 : v / 4096 = 0
  · rw [if_pos (by omega)]
    exact ⟨0xA0, 0xBF, by rw [h0], by omega, by omega⟩
  · rw [if_neg (by omega)]
    by_cases hD : v / 4096 = 0xD
    · rw [if_pos (by omega)]
      exact ⟨0x80, 0x9F, by rw [hD], by omega, by omega⟩
    · rw [if_neg (by omega), if_pos (by omega)]
      refine ⟨0x80, 0xBF, ?_, by omega, by omega⟩
      rw [show v / 4096 % 16 + 0xE0 - 0xE0 = v / 4096 by omega]

theorem first_four {v : Nat} (hlo : 0xFFFF < v) (hhi : v ≤ 0x10FFFF) :
    ∃ lo hi, step idle (v / 262144 % 8 + 0xF0) = ([], ⟨3, v / 262144, lo, hi⟩) ∧
      lo ≤ v / 4096 % 64 + 0x80 ∧ v / 4096 % 64 + 0x80 ≤ hi := by
  rw [step_idle]
  unfold first
  rw [if_neg (by omega), if_neg (by omega), if_neg (by omega), if_neg (by omega),
    if_neg (by omega)]
  by_cases h0 : v / 262144 = 0
  · rw [if_pos (by omega)]
    exact ⟨0x90, 0xBF, by rw [h0], by omega, by omega⟩
  · rw [if_neg (by omega)]
    by_cases h4 : v / 262144 = 4
    · rw [if_pos (by omega)]
      exact ⟨0x80, 0x8F, by rw [h4], by omega, by omega⟩
    · rw [if_neg (by omega), if_pos (by omega)]
      refine ⟨0x80, 0xBF, ?_, by omega, by omega⟩
      rw [show v / 262144 % 8 + 0xF0 - 0xF0 = v / 262144 by omega]

theorem toNat_ofNat {n : Nat} (h : n < 256) : (UInt8.ofNat n).toNat = n :=
  UInt8.toNat_ofNat_of_lt' h

/-- **The decoder reads back one character.** -/
theorem decodeFrom_encodeChar (c : Char) (bs : List UInt8) :
    decodeFrom idle (String.utf8EncodeChar c ++ bs) = c :: decodeFrom idle bs := by
  have hvalid := c.valid
  have hchar : Char.ofNat c.val.toNat = c := Char.ofNat_toNat c
  simp only [UInt32.isValidChar, Nat.isValidChar] at hvalid
  unfold String.utf8EncodeChar
  generalize c.val.toNat = v at hvalid hchar
  dsimp only
  split
  · refine decodeFrom_emit (toNat_ofNat (by omega)) ?_
    rw [step_idle, first, if_pos (by assumption), hchar]
  · split
    · refine (decodeFrom_more (t := ⟨1, v / 64, 0x80, 0xBF⟩) (toNat_ofNat (by omega)) ?_).trans
        (decodeFrom_emit (toNat_ofNat (by omega)) ?_)
      · rw [step_idle, first, if_neg (by omega), if_pos (by omega),
          show v / 64 % 0x20 + 0xC0 - 0xC0 = v / 64 by omega]
      · rw [step_last (by omega) (by omega), show v / 64 * 64 + v % 64 = v by omega, hchar]
    · split
      · obtain ⟨lo, hi, hfirst, hlo, hhi⟩ := first_three (v := v) (by omega) (by omega) (by omega)
        refine (decodeFrom_more (toNat_ofNat (by omega)) hfirst).trans
          ((decodeFrom_more (toNat_ofNat (by omega)) (step_more (by omega) hlo hhi)).trans
            (decodeFrom_emit (toNat_ofNat (by omega)) ?_))
        rw [step_last (by omega) (by omega),
          show (v / 4096 * 64 + v / 64 % 64) * 64 + v % 64 = v by omega, hchar]
      · obtain ⟨lo, hi, hfirst, hlo, hhi⟩ := first_four (v := v) (by omega) (by omega)
        refine (decodeFrom_more (toNat_ofNat (by omega)) hfirst).trans
          ((decodeFrom_more (toNat_ofNat (by omega)) (step_more (by omega) hlo hhi)).trans
            ((decodeFrom_more (toNat_ofNat (by omega))
              (step_more (by omega) (by omega) (by omega))).trans
                (decodeFrom_emit (toNat_ofNat (by omega)) ?_)))
        rw [step_last (by omega) (by omega), show
          ((v / 262144 * 64 + v / 4096 % 64) * 64 + v / 64 % 64) * 64 + v % 64 = v by omega, hchar]

theorem decodeFrom_encode (cs : List Char) (bs : List UInt8) :
    decodeFrom idle (encode cs ++ bs) = cs ++ decodeFrom idle bs := by
  induction cs with
  | nil => rfl
  | cons c cs ih =>
    rw [encode_cons, List.append_assoc, decodeFrom_encodeChar, ih]
    rfl

/-- **Decoding inverts encoding**, for a text that does not open with a byte
order mark. -/
theorem decode_encode {cs : List Char} (h : ∀ bs, encode cs ≠ 0xEF :: 0xBB :: 0xBF :: bs) :
    decode (encode cs) = cs := by
  have hplain : decode (encode cs) = decodeFrom idle (encode cs) := by
    unfold decode
    split
    · rename_i bs heq
      exact absurd heq (h bs)
    · rfl
  rw [hplain]
  simpa [decodeFrom, idle] using decodeFrom_encode cs []

theorem decodeStrict_encode (cs : List Char) : decodeStrict (encode cs) = some cs := by
  have hcs : decodeFrom idle (encode cs) = cs := by
    simpa [decodeFrom, idle] using decodeFrom_encode cs []
  rw [decodeStrict, hcs, if_pos rfl]

/-! ## Bytes that are still arriving -/

/-- What is decoded of the bytes so far, less the sequence that is not at its end. -/
def decodedFrom : State → List UInt8 → List Char
  | _, [] => []
  | s, b :: bs => (step s b.toNat).1 ++ decodedFrom (step s b.toNat).2 bs

theorem decodedFrom_mono (s : State) {bs bs' : List UInt8} (h : bs <+: bs') :
    decodedFrom s bs <+: decodedFrom s bs' := by
  obtain ⟨rest, rfl⟩ := h
  induction bs generalizing s with
  | nil => exact List.nil_prefix
  | cons b bs ih => exact List.prefix_append_right_inj _ |>.mpr (ih _)

theorem decodeFrom_eq (s : State) (bs : List UInt8) :
    decodeFrom s bs = decodedFrom s bs ∨ decodeFrom s bs = decodedFrom s bs ++ [replacement] := by
  induction bs generalizing s with
  | nil =>
    rw [decodeFrom]
    split
    · exact .inl rfl
    · exact .inr rfl
  | cons b bs ih =>
    rw [decodeFrom, decodedFrom]
    obtain h | h := ih (step s b.toNat).2
    · exact .inl (by rw [h])
    · exact .inr (by rw [h, List.append_assoc])

end TradePulse.Core.Utf8
