import ServingObservatory.Identity

/-!
# The SHA-256 object

Bytes are collected into a block of 64, a full block is processed when more bytes
come, and finalizing pads the last block with the length in bits.
-/
namespace ServingObservatory

/-- `std::array<u8, 32>`. -/
abbrev Digest := Vector UInt8 32

/-- The words of the state, and the bytes of `buf_` up to `buf_len_`. -/
structure Sha256 where
  h : Vector UInt32 8 := #v[0x6a09e667, 0xbb67ae85, 0x3c6ef372, 0xa54ff53a,
    0x510e527f, 0x9b05688c, 0x1f83d9ab, 0x5be0cd19]
  totalLen : UInt64 := 0
  buf : Bytes := []

namespace Sha256

def K : Array UInt32 := #[
  0x428a2f98, 0x71374491, 0xb5c0fbcf, 0xe9b5dba5, 0x3956c25b, 0x59f111f1, 0x923f82a4, 0xab1c5ed5,
  0xd807aa98, 0x12835b01, 0x243185be, 0x550c7dc3, 0x72be5d74, 0x80deb1fe, 0x9bdc06a7, 0xc19bf174,
  0xe49b69c1, 0xefbe4786, 0x0fc19dc6, 0x240ca1cc, 0x2de92c6f, 0x4a7484aa, 0x5cb0a9dc, 0x76f988da,
  0x983e5152, 0xa831c66d, 0xb00327c8, 0xbf597fc7, 0xc6e00bf3, 0xd5a79147, 0x06ca6351, 0x14292967,
  0x27b70a85, 0x2e1b2138, 0x4d2c6dfc, 0x53380d13, 0x650a7354, 0x766a0abb, 0x81c2c92e, 0x92722c85,
  0xa2bfe8a1, 0xa81a664b, 0xc24b8b70, 0xc76c51a3, 0xd192e819, 0xd6990624, 0xf40e3585, 0x106aa070,
  0x19a4c116, 0x1e376c08, 0x2748774c, 0x34b0bcb5, 0x391c0cb3, 0x4ed8aa4a, 0x5b9cca4f, 0x682e6ff3,
  0x748f82ee, 0x78a5636f, 0x84c87814, 0x8cc70208, 0x90befffa, 0xa4506ceb, 0xbef9a3f7, 0xc67178f2]

/-- Rotation to the right. -/
def rr (x : UInt32) (n : UInt32) : UInt32 := (x >>> n) ||| (x <<< (32 - n))

/-- The big-endian word at index `i` of a block. -/
def blockWord (p : Bytes) (i : ℕ) : UInt32 :=
  let b (j : ℕ) : UInt32 := (p.getD (i * 4 + j) 0).toUInt32
  (b 0 <<< 24) ||| (b 1 <<< 16) ||| (b 2 <<< 8) ||| b 3

/-- The message schedule, sixteen words of the block and the rest from them. -/
def schedule (p : Bytes) : Array UInt32 :=
  (List.range' 16 48).foldl (fun w i =>
    let s0 := rr (w.getD (i - 15) 0) 7 ^^^ rr (w.getD (i - 15) 0) 18 ^^^ (w.getD (i - 15) 0 >>> 3)
    let s1 := rr (w.getD (i - 2) 0) 17 ^^^ rr (w.getD (i - 2) 0) 19 ^^^ (w.getD (i - 2) 0 >>> 10)
    w.push (w.getD (i - 16) 0 + s0 + w.getD (i - 7) 0 + s1))
    ((List.range 16).map (blockWord p)).toArray

/-- One round on the words `a` to `hh`. -/
def round (w : Array UInt32) (v : Vector UInt32 8) (i : ℕ) : Vector UInt32 8 :=
  let a := v[0]; let b := v[1]; let c := v[2]; let d := v[3]
  let e := v[4]; let f := v[5]; let g := v[6]; let hh := v[7]
  let S1 := rr e 6 ^^^ rr e 11 ^^^ rr e 25
  let ch := (e &&& f) ^^^ (~~~e &&& g)
  let t1 := hh + S1 + ch + K.getD i 0 + w.getD i 0
  let S0 := rr a 2 ^^^ rr a 13 ^^^ rr a 22
  let maj := (a &&& b) ^^^ (a &&& c) ^^^ (b &&& c)
  let t2 := S0 + maj
  #v[t1 + t2, a, b, c, d + t1, e, f, g]

def processBlock (h : Vector UInt32 8) (p : Bytes) : Vector UInt32 8 :=
  let v := (List.range 64).foldl (round (schedule p)) h
  Vector.zipWith (· + ·) h v

/-- A full buffer is processed before more bytes are copied. -/
def room (s : Sha256) : Sha256 :=
  if s.buf.length ≥ 64 then { s with h := processBlock s.h s.buf, buf := [] } else s

theorem length_buf_room_lt (s : Sha256) : s.room.buf.length < 64 := by
  unfold room
  split
  · simp
  · omega

/-- The copying loop of `update`. -/
def absorb (s : Sha256) (data : Bytes) : Sha256 :=
  if data = [] then s
  else
    let take := min (64 - s.room.buf.length) data.length
    absorb { s.room with buf := s.room.buf ++ data.take take } (data.drop take)
termination_by data.length
decreasing_by
  rename_i hdata
  have hroom := length_buf_room_lt s
  have hpos : 0 < data.length := List.length_pos_iff.mpr hdata
  rw [List.length_drop]
  omega

def update (s : Sha256) (data : Bytes) : Sha256 :=
  { s with totalLen := s.totalLen + UInt64.ofNat data.length }.absorb data

/-- The loop that adds zeros up to byte 56; at most 64 are needed. -/
def padZeros : ℕ → Sha256 → Sha256
  | 0, s => s
  | n + 1, s => if s.buf.length ≠ 56 then padZeros n (s.update [0]) else s

def finalize (s : Sha256) : Digest :=
  let bitLen := s.totalLen * 8
  let s := padZeros 64 (s.update [0x80])
  let lenbytes := (List.range 8).map fun i => (bitLen >>> UInt64.ofNat (56 - i * 8)).toUInt8
  let h := processBlock s.h (s.buf ++ lenbytes)
  Vector.ofFn fun i => (h[i.val / 4] >>> UInt32.ofNat (24 - i.val % 4 * 8)).toUInt8

def hash (data : Bytes) : Digest := (update {} data).finalize

end Sha256
end ServingObservatory
