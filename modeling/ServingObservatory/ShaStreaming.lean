import Mathlib.Order.Bounds.Basic
import ServingObservatory.BigEndian
import ServingObservatory.BlockHashing
import ServingObservatory.Sha256

/-!
# The incremental SHA-256 is the standard one

The standard pads the whole message and folds the compression function over its blocks.
The object keeps a buffer that is processed late and pads byte by byte, with the same
result for every way of cutting the message into updates.
-/
namespace ServingObservatory
open BlockHashing
namespace Sha256

/-- The standard initial state. -/
def initial : Vector UInt32 8 :=
  (#v[0x6a09e667, 0xbb67ae85, 0x3c6ef372, 0xa54ff53a] : Vector UInt32 4) ++
  (#v[0x510e527f, 0x9b05688c, 0x1f83d9ab, 0x5be0cd19] : Vector UInt32 4)

/-- The zero bytes between the marker and the length of a message of `n` bytes. -/
def zeros (n : ℕ) : ℕ := (119 - n % 64) % 64

/-- The length in bits, as the last eight bytes of the padded message. -/
def lengthBytes (n : ℕ) : Bytes := BigEndian.bytes 8 (8 * n)

def padded (m : Bytes) : Bytes :=
  m ++ 0x80 :: List.replicate (zeros m.length) 0 ++ lengthBytes m.length

/-- The big-endian bytes of the words of a state. -/
def digestOf (h : Vector UInt32 8) : Bytes := h.toList.flatMap fun w => BigEndian.bytes 4 w.toNat

/-- The digest of the standard: the padded message folded block by block. -/
def fips (m : Bytes) : Bytes := digestOf (foldBlocks 64 processBlock initial (padded m))

/-- As few zeros as make the padded message whole blocks. -/
theorem isLeast_zeros (n : ℕ) : IsLeast {z | 64 ∣ n + 1 + z + 8} (zeros n) := by
  unfold zeros
  refine ⟨Nat.dvd_of_mod_eq_zero ?_, fun z hz => ?_⟩
  · omega
  · obtain ⟨k, hk⟩ := hz
    omega

theorem value_lengthBytes {n : ℕ} (h : n < 2 ^ 61) :
    BigEndian.value (lengthBytes n) = 8 * n := by
  rw [lengthBytes, BigEndian.value_bytes, Nat.mod_eq_of_lt (by omega)]

/-- What the object has taken so far is the message. -/
structure Hashed (m : Bytes) (s : Sha256) : Prop where
  absorbed : Absorbed (n := 64) processBlock initial m s.h s.buf
  total : s.totalLen = UInt64.ofNat m.length

section Steps
variable {m : Bytes} {s : Sha256}

@[simp] theorem room_totalLen : s.room.totalLen = s.totalLen := by
  unfold room
  split_ifs <;> rfl

theorem absorbed_room (h : Absorbed (n := 64) processBlock initial m s.h s.buf) :
    Absorbed (n := 64) processBlock initial m s.room.h s.room.buf := by
  unfold room
  split_ifs with hfull
  · exact h.flush (by norm_num) (h.fits.antisymm hfull)
  · exact h

theorem absorb_totalLen (data : Bytes) : (s.absorb data).totalLen = s.totalLen := by
  fun_induction absorb s data with
  | case1 s => rfl
  | case2 s data hne take ih => rw [ih, room_totalLen]

/-- The copying loop takes the bytes that are left, block by block. -/
theorem absorbed_absorb (data : Bytes) :
    ∀ m, Absorbed (n := 64) processBlock initial m s.h s.buf →
      Absorbed (n := 64) processBlock initial (m ++ data) (s.absorb data).h
        (s.absorb data).buf := by
  fun_induction absorb s data with
  | case1 s =>
    intro m h
    rwa [List.append_nil]
  | case2 s data hne take ih =>
    intro m h
    have hroom := length_buf_room_lt s
    have htaken : (data.take take).length = take := by
      rw [List.length_take]
      omega
    have hnext := ih _ ((absorbed_room h).append (d := data.take take) (by omega))
    rwa [List.append_assoc, List.take_append_drop] at hnext

theorem hashed_nil : Hashed [] {} := ⟨absorbed_nil, rfl⟩

/-- An update takes its bytes, however full the buffer is. -/
theorem Hashed.update (h : Hashed m s) (data : Bytes) : Hashed (m ++ data) (s.update data) where
  absorbed := absorbed_absorb (s := { s with totalLen := s.totalLen + UInt64.ofNat data.length })
    data m h.absorbed
  total := by
    rw [Sha256.update, absorb_totalLen, List.length_append, UInt64.ofNat_add, ← h.total]

theorem Hashed.foldl_update (h : Hashed m s) (pieces : List Bytes) :
    Hashed (m ++ pieces.flatten) (pieces.foldl Sha256.update s) := by
  induction pieces generalizing m s with
  | nil => simpa using h
  | cons d pieces ih =>
    rw [List.flatten_cons, ← List.append_assoc]
    exact ih (h.update d)

theorem absorb_of_fits {data : Bytes} (hne : data ≠ [])
    (hfits : s.room.buf.length + data.length ≤ 64) :
    s.absorb data = { s.room with buf := s.room.buf ++ data } := by
  have htake : min (64 - s.room.buf.length) data.length = data.length := by omega
  rw [absorb, if_neg hne]
  simp only [htake, List.take_length, List.drop_length]
  rw [absorb, if_pos rfl]

theorem length_buf_room (h : s.buf.length ≤ 64) : s.room.buf.length = s.buf.length % 64 := by
  unfold room
  split_ifs with hfull
  · simp [h.antisymm hfull]
  · rw [Nat.mod_eq_of_lt (by omega)]

/-- The zeros that are missing before byte 56. -/
def missing (s : Sha256) : ℕ := (120 - s.buf.length) % 64

theorem missing_update_zero (h : s.buf.length ≤ 64) (hne : s.buf.length ≠ 56) :
    (s.update [0]).buf.length ≤ 64 ∧ (s.update [0]).missing + 1 = s.missing := by
  have hroom := length_buf_room (s := { s with totalLen := s.totalLen + 1 }) h
  have hfits : s.buf.length % 64 + 1 ≤ 64 := Nat.mod_lt _ (by norm_num)
  have hlen : (s.update [0]).buf.length = s.buf.length % 64 + 1 := by
    rw [update, absorb_of_fits (List.cons_ne_nil 0 []) (hroom.symm ▸ hfits)]
    simp [hroom]
  unfold missing
  omega

theorem missing_eq_zero (h : s.buf.length ≤ 64) : s.missing = 0 ↔ s.buf.length = 56 := by
  unfold missing
  omega

/-- The loop stops at byte 56 when it has added the missing zeros. -/
theorem Hashed.padZeros (h : Hashed m s) {n : ℕ} (hn : s.missing ≤ n) :
    Hashed (m ++ List.replicate s.missing 0) (s.padZeros n) ∧
      (s.padZeros n).buf.length = 56 := by
  have hdone := missing_eq_zero h.absorbed.fits
  induction n generalizing m s with
  | zero =>
    have hnone : s.missing = 0 := Nat.le_zero.mp hn
    rw [hnone, List.replicate_zero, List.append_nil, Sha256.padZeros]
    exact ⟨h, hdone.mp hnone⟩
  | succ n ih =>
    rw [Sha256.padZeros]
    split_ifs with hmore
    · obtain ⟨hfits, hmissing⟩ := missing_update_zero h.absorbed.fits hmore
      have hnext := ih (h.update [0]) (by omega) (missing_eq_zero hfits)
      rwa [List.append_assoc, List.singleton_append, ← List.replicate_succ, hmissing] at hnext
    · have hend : s.buf.length = 56 := not_not.mp hmore
      rw [hdone.mpr hend, List.replicate_zero, List.append_nil]
      exact ⟨h, hend⟩

/-- The marker leaves the zeros of the standard to be added. -/
theorem Hashed.missing_eq (h : Hashed (m ++ [0x80]) s) : s.missing = zeros m.length := by
  have hfits := h.absorbed.fits
  have hmod := h.absorbed.length_mod
  rw [List.length_append, List.length_singleton] at hmod
  unfold missing zeros
  omega

/-- The padding loop runs to its end within the 63 rounds that it may need. -/
theorem Hashed.padded (h : Hashed m s) :
    Hashed (m ++ 0x80 :: List.replicate (zeros m.length) 0) ((s.update [0x80]).padZeros 64) ∧
      ((s.update [0x80]).padZeros 64).buf.length = 56 := by
  have hmark := h.update [0x80]
  have hmissing := hmark.missing_eq
  have hend := hmark.padZeros (n := 64) (by rw [hmissing, zeros]; omega)
  rwa [hmissing, List.append_assoc, List.singleton_append] at hend

/-- The shifts of the bit length spell it big-endian. -/
theorem lenbytes_eq (n : ℕ) :
    ((List.range 8).map fun i =>
      ((UInt64.ofNat n * 8) >>> UInt64.ofNat (56 - i * 8)).toUInt8) = lengthBytes n := by
  have hbytes : ∀ v, BigEndian.bytes 8 v =
      (List.range 8).map fun i => UInt8.ofNat (v / 256 ^ (7 - i)) := fun _ => rfl
  have hbits : (UInt64.ofNat n * 8).toNat = 8 * n % 256 ^ 8 := by
    rw [UInt64.toNat_mul, UInt64.toNat_ofNat']
    simp [Nat.mul_comm]
  have hmod : BigEndian.bytes 8 (8 * n) = BigEndian.bytes 8 (8 * n % 256 ^ 8) := by
    rw [← BigEndian.bytes_add_mul 8 (8 * n % 256 ^ 8) (8 * n / 256 ^ 8), Nat.mod_add_div']
  rw [lengthBytes, hmod, ← hbits, hbytes]
  refine List.map_congr_left fun i hi => UInt8.toNat_inj.mp ?_
  have hi := List.mem_range.mp hi
  have hsmall : 56 - i * 8 < 2 ^ 64 := by omega
  have hshift : (UInt64.ofNat (56 - i * 8)).toNat % 64 = 8 * (7 - i) := by
    rw [UInt64.toNat_ofNat_of_lt' hsmall]
    omega
  rw [UInt64.toNat_toUInt8, UInt64.toNat_shiftRight, hshift, Nat.shiftRight_eq_div_pow,
    UInt8.toNat_ofNat', pow_mul]
  norm_num

theorem toUInt8_shiftRight (w : UInt32) {j : ℕ} (hj : j < 4) :
    (w >>> UInt32.ofNat (24 - j * 8)).toUInt8 = UInt8.ofNat (w.toNat / 256 ^ (3 - j)) := by
  have hshift : (UInt32.ofNat (24 - j * 8)).toNat % 32 = 8 * (3 - j) := by
    rw [UInt32.toNat_ofNat_of_lt' (show 24 - j * 8 < 2 ^ 32 by omega)]
    omega
  refine UInt8.toNat_inj.mp ?_
  rw [UInt32.toNat_toUInt8, UInt32.toNat_shiftRight, hshift, Nat.shiftRight_eq_div_pow,
    UInt8.toNat_ofNat', pow_mul]
  norm_num

/-- The shifts of the words spell the digest. -/
theorem toList_digest (h : Vector UInt32 8) :
    (Vector.ofFn fun i : Fin (8 * 4) =>
      (h[i.divNat] >>> UInt32.ofNat (24 - i.modNat.val * 8)).toUInt8).toList = digestOf h := by
  have hwords : h.toList = List.ofFn fun i : Fin 8 => h[i] := by
    refine List.ext_getElem (by simp) fun i h₁ h₂ => ?_
    rw [List.getElem_ofFn, Vector.getElem_toList]
    rfl
  have hbytes : ∀ v, BigEndian.bytes 4 v =
      List.ofFn fun j : Fin 4 => UInt8.ofNat (v / 256 ^ (3 - j.val)) := fun _ => rfl
  rw [Vector.toList_ofFn, digestOf, hwords, List.flatMap, List.map_ofFn]
  -- the 32 bytes are eight times four
  refine (List.ofFn_mul (m := 8) (n := 4) _).trans
    (congrArg (List.flatten ∘ List.ofFn) (funext fun i => ?_))
  rw [Function.comp_apply, hbytes]
  refine congrArg List.ofFn (funext fun j => ?_)
  have hlt : i.val * 4 + j.val < 8 * 4 := by omega
  have hdiv : (⟨i.val * 4 + j.val, hlt⟩ : Fin (8 * 4)).divNat = i :=
    Fin.ext (by simp only [Fin.divNat]; omega)
  have hmod : (⟨i.val * 4 + j.val, hlt⟩ : Fin (8 * 4)).modNat = j :=
    Fin.ext (by simp only [Fin.modNat]; omega)
  simp only [hdiv, hmod]
  exact toUInt8_shiftRight _ j.isLt

theorem Hashed.finalize_eq (h : Hashed m s) : s.finalize.toList = fips m := by
  obtain ⟨hpad, hlen⟩ := h.padded
  have hfull := (hpad.absorbed.append (d := lengthBytes m.length)
    (by rw [hlen, lengthBytes, BigEndian.length_bytes])).compress_eq (by norm_num)
    (by rw [List.length_append, hlen, lengthBytes, BigEndian.length_bytes])
  rw [fips, Sha256.padded, ← hfull, finalize, h.total, lenbytes_eq]
  exact toList_digest _

end Steps

/-- However a message is cut into updates, the digest is the one of the standard, and the
padding loop ends. -/
theorem finalize_foldl_update (m : Bytes) (hm : m.length < 2 ^ 61) (pieces : List Bytes)
    (hcut : pieces.flatten = m) :
    (pieces.foldl update {}).finalize.toList = fips m ∧
      IsLeast {z | 64 ∣ m.length + 1 + z + 8} (zeros m.length) ∧
      BigEndian.value (lengthBytes m.length) = 8 * m.length ∧
      (((pieces.foldl update {}).update [0x80]).padZeros 64).buf.length = 56 := by
  have h : Hashed m (pieces.foldl update {}) := by simpa [hcut] using hashed_nil.foldl_update pieces
  exact ⟨h.finalize_eq, isLeast_zeros m.length, value_lengthBytes hm, h.padded.2⟩

/-- Three bytes in three updates, one of them empty. -/
theorem finalize_foldl_update_abc :
    ([[0x61], [], [0x62, 0x63]].foldl update {}).finalize.toList = fips [0x61, 0x62, 0x63] ∧
      IsLeast {z | 64 ∣ 3 + 1 + z + 8} (zeros 3) ∧
      BigEndian.value (lengthBytes 3) = 24 ∧
      (padZeros 64 (update ([[0x61], [], [0x62, 0x63]].foldl update {}) [0x80])).buf.length = 56 :=
  finalize_foldl_update [0x61, 0x62, 0x63] (by decide) [[0x61], [], [0x62, 0x63]] rfl

/-- The known digest of these bytes. -/
example : fips [0x61, 0x62, 0x63] = [
    0xba, 0x78, 0x16, 0xbf, 0x8f, 0x01, 0xcf, 0xea, 0x41, 0x41, 0x40, 0xde, 0x5d, 0xae, 0x22, 0x23,
    0xb0, 0x03, 0x61, 0xa3, 0x96, 0x17, 0x7a, 0x9c, 0xb4, 0x10, 0xff, 0x61, 0xf2, 0x00, 0x15, 0xad] :=
  by decide +kernel

end Sha256
end ServingObservatory
