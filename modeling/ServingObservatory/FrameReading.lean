import ServingObservatory.FrameIntegrity

/-!
# Reading frames from a stream

One call of `recv` returns some of the bytes that have arrived, or times out, or reports the
end of the stream. `recv_exact` collects a number of bytes over several calls, and
`recv_frame` reads a length and then as many bytes. Between two calls the bytes read so far
are local to the reader.
-/
namespace ServingObservatory
open BigEndian

/-- What one call of `recv` returns. -/
inductive RecvResult
  | data (bs : Bytes)
  | timeout
  | closed

/-- The bytes that a call has taken from the stream. -/
def RecvResult.bytes : RecvResult → Bytes
  | .data bs => bs
  | .timeout | .closed => []

/-- What the network makes of a call: the number of bytes it hands over, or none. -/
inductive Delivery
  | data (n : ℕ)
  | timeout
  | closed
  deriving DecidableEq

/-- A call for at most `want` bytes, and the bytes that remain. Data is a prefix that is not
empty, and the end is reported once all bytes are read. -/
def deliver (unread : Bytes) (want : ℕ) : Delivery → Option (RecvResult × Bytes)
  | .data n =>
    if 0 < n ∧ n ≤ want ∧ n ≤ unread.length then some (.data (unread.take n), unread.drop n)
    else none
  | .timeout => some (.timeout, unread)
  | .closed => if unread = [] then some (.closed, []) else none

/-- The size of the buffer of a call. -/
def recvBuffer : ℕ := 65536

/-- `recv_exact` after one more call: it goes on with more bytes, has them all, or fails. -/
inductive ExactStep
  | more (out : Bytes)
  | done (out : Bytes)
  | failed (message : Str)

/-- How much `recv_exact(n)` asks for when it has some bytes. -/
def recvExactWant (n : ℕ) (out : Bytes) : ℕ := min (n - out.length) recvBuffer

def recvExact (n : ℕ) (out : Bytes) : RecvResult → ExactStep
  | .data bs => if (out ++ bs).length < n then .more (out ++ bs) else .done (out ++ bs)
  | .timeout => .failed (lit "recv timeout")
  | .closed => .failed (lit "peer closed during recv")

/-- Where `recv_frame` is: in the length, or in the bytes after a length. -/
inductive FrameReader
  | header (out : Bytes)
  | body (hdr out : Bytes)
  deriving DecidableEq

/-- `recv_frame` after one more call: it goes on, or returns. An absent frame is no error. -/
inductive FrameStep
  | pending (reader : FrameReader)
  | done (result : Except Str (Option Bytes))

/-- The loop `len = (len << 8) | hdr[i]`. -/
def frameLength (hdr : Bytes) : UInt32 := ⟨hdr.foldl shiftIn 0⟩

/-- The largest length that `recv_frame` reads on for. -/
def maxReceived : UInt32 := 256 * 1024 * 1024

namespace FrameReader

/-- How much the next call asks for. -/
def want : FrameReader → ℕ
  | header out => recvExactWant 4 out
  | body hdr out => recvExactWant (frameLength hdr).toNat out

/-- The bytes read so far. -/
def held : FrameReader → Bytes
  | header out => out
  | body hdr out => hdr ++ out

end FrameReader

/-- A length that does not arrive counts as no frame, whatever the reason. -/
def recvFrame : FrameReader → RecvResult → FrameStep
  | .header out, r =>
    match recvExact 4 out r with
    | .more out => .pending (.header out)
    | .failed _ => .done (.ok none)
    | .done hdr =>
      if frameLength hdr < 8 ∨ frameLength hdr > maxReceived then
        .done (.error (lit "invalid frame length " ++ decimal (frameLength hdr).toNat))
      else .pending (.body hdr [])
  | .body hdr out, r =>
    match recvExact (frameLength hdr).toNat out r with
    | .more out => .pending (.body hdr out)
    | .failed e => .done (.error (lit "frame body read failed: " ++ e))
    | .done out => .done (.ok (some (hdr ++ out)))

/-- `recv_some`: bytes, or nothing on a timeout and at the end. -/
def recvSome : RecvResult → Option Bytes
  | .data bs => some bs
  | .timeout | .closed => none

theorem deliver_eq_some {unread rest : Bytes} {want : ℕ} {d : Delivery} {r : RecvResult}
    (h : deliver unread want d = some (r, rest)) :
    unread = r.bytes ++ rest ∧ r.bytes.length ≤ want ∧
      ((d = .timeout ∧ r = .timeout) ∨ (d = .closed ∧ r = .closed ∧ unread = []) ∨
        ∃ n bs, d = .data n ∧ r = .data bs ∧ bs ≠ []) := by
  cases d with
  | data n =>
    simp only [deliver] at h
    split_ifs at h with hn
    obtain ⟨rfl, rfl⟩ := Prod.mk.inj (Option.some.inj h)
    have htake : (unread.take n).length = n := by simp [hn.2.2]
    refine ⟨(List.take_append_drop n unread).symm, htake.le.trans hn.2.1,
      .inr (.inr ⟨n, _, rfl, rfl, ?_⟩)⟩
    exact List.ne_nil_of_length_pos (htake.symm ▸ hn.1)
  | timeout =>
    obtain ⟨rfl, rfl⟩ := Prod.mk.inj (Option.some.inj h)
    exact ⟨rfl, Nat.zero_le _, .inl ⟨rfl, rfl⟩⟩
  | closed =>
    simp only [deliver] at h
    split_ifs at h with hempty
    obtain ⟨rfl, rfl⟩ := Prod.mk.inj (Option.some.inj h)
    exact ⟨hempty, Nat.zero_le _, .inr (.inl ⟨rfl, rfl, hempty⟩)⟩

/-- A buffer whose length field tells its length. -/
structure Framed (b : Bytes) : Prop where
  min : 12 ≤ b.length
  length : (frameLength (b.take 4)).toNat + 4 = b.length

/-- The reader has a proper part of the frame. -/
def MidFrame (f : Bytes) : FrameReader → Prop
  | .header out => out <+: f ∧ out.length < 4
  | .body hdr out => hdr ++ out <+: f ∧ hdr.length = 4 ∧ out.length < (frameLength hdr).toNat

section Framing
variable {f : Bytes}

theorem toNat_frameLength {hdr : Bytes} (h : hdr.length = 4) :
    (frameLength hdr).toNat = value hdr := by
  have hlt := value_lt hdr
  rw [h] at hlt
  rw [frameLength, ← UInt32.toNat_toBitVec, toNat_foldl_shiftIn]
  simpa using Nat.mod_eq_of_lt hlt

/-- The length field of an encoded frame. -/
theorem frameLength_encode {t : MsgType} {payload : Bytes} (h : payload.length + 8 < 2 ^ 32)
    (hf : Frame.encode t payload = .ok f) :
    (frameLength (f.take 4)).toNat = payload.length + 8 ∧ f.length = payload.length + 12 := by
  rw [Frame.encode_eq, Except.ok.injEq] at hf
  subst hf
  have hlen : (bytes 4 (Frame.wireLength payload).toNat).length = 4 := length_bytes _ _
  constructor
  · rw [Frame.spell, List.take_left' hlen, toNat_frameLength hlen, value_bytes, Frame.wireLength,
      UInt32.toNat_ofNat_of_lt' (by change 8 + payload.length < 2 ^ 32; omega)]
    omega
  · rw [Frame.length_spell]
    omega

theorem framed_encode {t : MsgType} {payload : Bytes} (h : payload.length + 8 < 2 ^ 32)
    (hf : Frame.encode t payload = .ok f) : Framed f := by
  obtain ⟨hlen, hlength⟩ := frameLength_encode h hf
  exact ⟨by omega, by omega⟩

theorem framed_of_decode {frame : Frame} (h : Frame.decode f = some (.ok frame)) : Framed f := by
  obtain ⟨-, hmax, hencode⟩ := (Frame.decode_eq_ok_iff f frame).mp h
  have hsize : frame.payload.length + 8 ≤ 64 * 1024 * 1024 := hmax
  exact framed_encode (by omega) hencode

/-- The length field of a frame that was begun. -/
theorem take_header {hdr : Bytes} (h : hdr <+: f) (hlen : hdr.length = 4) : f.take 4 = hdr := by
  rw [← hlen]
  exact (List.prefix_iff_eq_take.mp h).symm

/-- The calls inside a frame ask for no more than the rest of it. -/
theorem held_add_want_le (hf : Framed f) {reader : FrameReader} (h : MidFrame f reader) :
    reader.held.length + reader.want ≤ f.length := by
  cases reader with
  | header out =>
    have hmin := hf.min
    obtain ⟨-, hlt⟩ := h
    simp only [FrameReader.held, FrameReader.want, recvExactWant]
    omega
  | body hdr out =>
    obtain ⟨hpre, hhdr, hlt⟩ := h
    have hlength := hf.length
    rw [take_header ((List.prefix_append hdr out).trans hpre) hhdr] at hlength
    simp only [FrameReader.held, FrameReader.want, recvExactWant, List.length_append]
    omega

/-- Bytes of a frame lead further into it, and the last ones make it complete, unless the frame
is longer than the reader allows. -/
theorem recvFrame_data (hf : Framed f) {reader : FrameReader} (h : MidFrame f reader) {bs : Bytes}
    (hwant : bs.length ≤ reader.want) (hbs : reader.held ++ bs <+: f) :
    (∃ reader', recvFrame reader (.data bs) = .pending reader' ∧ MidFrame f reader' ∧
      reader'.held = reader.held ++ bs) ∨
    (recvFrame reader (.data bs) = .done (.ok (some f)) ∧ reader.held ++ bs = f) ∨
    ∃ e, recvFrame reader (.data bs) = .done (.error e) := by
  cases reader with
  | header out =>
    obtain ⟨-, hout⟩ := h
    simp only [FrameReader.held, FrameReader.want, recvExactWant] at hwant hbs
    simp only [recvFrame, recvExact, FrameReader.held]
    by_cases hlt : (out ++ bs).length < 4
    · simp only [if_pos hlt]
      exact .inl ⟨_, rfl, ⟨hbs, hlt⟩, rfl⟩
    · have hfour : (out ++ bs).length = 4 := by
        rw [List.length_append] at hlt ⊢
        omega
      obtain ⟨hmin, hlength⟩ := hf
      rw [take_header hbs hfour] at hlength
      simp only [if_neg hlt]
      split_ifs with hbad
      · exact .inr (.inr ⟨_, rfl⟩)
      · refine .inl ⟨_, rfl, ⟨by simpa using hbs, hfour, ?_⟩, by simp⟩
        rw [List.length_nil]
        omega
  | body hdr out =>
    obtain ⟨hpre, hhdr, hlt⟩ := h
    simp only [FrameReader.held, FrameReader.want, recvExactWant] at hwant hbs
    simp only [recvFrame, recvExact, FrameReader.held]
    by_cases hmore : (out ++ bs).length < (frameLength hdr).toNat
    · simp only [if_pos hmore]
      exact .inl ⟨_, rfl, ⟨by simpa using hbs, hhdr, hmore⟩, by simp⟩
    · have hlength := hf.length
      rw [take_header ((List.prefix_append hdr out).trans hpre) hhdr] at hlength
      have hall : hdr ++ out ++ bs = f := by
        refine hbs.eq_of_length_le ?_
        simp only [List.length_append] at hmore ⊢
        omega
      simp only [if_neg hmore]
      rw [← List.append_assoc, hall]
      exact .inr (.inl ⟨rfl, rfl⟩)

/-- The next bytes of a stream that begins with the frame are bytes of the frame. -/
theorem held_append_prefix (hf : Framed f) {reader : FrameReader} (h : MidFrame f reader)
    {bs rest tail : Bytes} (hwant : bs.length ≤ reader.want)
    (hstream : f ++ tail = reader.held ++ (bs ++ rest)) : reader.held ++ bs <+: f := by
  have hfit := held_add_want_le hf h
  have hstart : reader.held ++ bs <+: f ++ tail := ⟨rest, by rw [hstream, List.append_assoc]⟩
  refine List.prefix_of_prefix_length_le hstart (List.prefix_append _ _) ?_
  rw [List.length_append]
  omega

end Framing
end ServingObservatory
