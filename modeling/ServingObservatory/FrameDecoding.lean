import ServingObservatory.BinaryLanguage
import ServingObservatory.Frame

/-!
# Frames accepted by the decoder

A buffer of at least twelve bytes is a length, a checksum, a version, a type code
and a payload. The decoder accepts the buffers that the encoder writes, up to its
size limit, and a burst of four bytes never turns one of them into another.
-/
namespace ServingObservatory
open BigEndian Decoding BinaryWriter BinaryReader

theorem MsgType.ofCode_eq_some_iff (code : UInt16) (t : MsgType) :
    MsgType.ofCode code = some t ↔ code = t.code := by
  constructor
  · intro h
    unfold MsgType.ofCode at h
    split at h
    · rename_i hrange
      have hlow : 1 ≤ code.toNat := UInt16.le_iff_toNat_le.mp hrange.1
      have hhigh : code.toNat ≤ 8 := UInt16.le_iff_toNat_le.mp hrange.2
      apply UInt16.toNat_inj.mp
      generalize code.toNat = n at h hlow hhigh
      interval_cases n <;> cases h <;> rfl
    · cases h
  · rintro rfl
    cases t <;> rfl

/-- The polynomial of the checksum. -/
def crcPoly : BitVec 32 := 0xEDB88320

theorem toBitVec_crcBit (crc : UInt32) :
    (crcBit crc).toBitVec = Crc.shift crcPoly crc.toBitVec := by
  simp [crcBit, Crc.shift, crcPoly]

theorem toBitVec_iterate_crcBit (n : ℕ) (crc : UInt32) :
    (crcBit^[n] crc).toBitVec = (Crc.shift crcPoly)^[n] crc.toBitVec := by
  induction n generalizing crc with
  | zero => rfl
  | succ n ih =>
    rw [Function.iterate_succ_apply, ih, toBitVec_crcBit, Function.iterate_succ_apply]

theorem toBitVec_crcByte (crc : UInt32) (b : UInt8) :
    (crcByte crc b).toBitVec = Crc.absorb crcPoly crc.toBitVec b := by
  rw [crcByte, toBitVec_iterate_crcBit]
  simp [Crc.absorb]

theorem toBitVec_foldl_crcByte (crc : UInt32) (data : Bytes) :
    (data.foldl crcByte crc).toBitVec = Crc.remainder crcPoly crc.toBitVec data := by
  induction data generalizing crc with
  | nil => rfl
  | cons b data ih =>
    rw [List.foldl_cons, ih, toBitVec_crcByte]
    rfl

/-- Equal checksums of strings that differ in four consecutive bytes at most. -/
theorem crc32_burst_inj {m m' front back : Bytes} (hm : m.length ≤ 4)
    (hlen : m.length = m'.length)
    (h : crc32 (front ++ (m ++ back)) = crc32 (front ++ (m' ++ back))) : m = m' := by
  have hfold := (UInt32.xor_left_inj _).mp h
  have hrem := congrArg UInt32.toBitVec hfold
  rw [toBitVec_foldl_crcByte, toBitVec_foldl_crcByte] at hrem
  exact Crc.burst_inj crcPoly (by decide) (by omega) hlen hrem

namespace Frame

/-- What the checksum covers. -/
def body (version code : UInt16) (payload : Bytes) : Bytes :=
  bytes 2 version.toNat ++ (bytes 2 code.toNat ++ payload)

/-- A buffer by its fields. -/
def spell (len crc : UInt32) (version code : UInt16) (payload : Bytes) : Bytes :=
  bytes 4 len.toNat ++ (bytes 4 crc.toNat ++ body version code payload)

theorem length_body (version code : UInt16) (payload : Bytes) :
    (body version code payload).length = 4 + payload.length := by
  simp [body]
  omega

theorem length_spell (len crc : UInt32) (version code : UInt16) (payload : Bytes) :
    (spell len crc version code payload).length = 12 + payload.length := by
  simp [spell, length_body]
  omega

theorem writes_encodeBody (t : MsgType) (payload : Bytes) (version : UInt16) :
    Writes (encodeBody t payload version) (body version t.code payload) :=
  (writes_u16 _).bind ((writes_u16 _).bind (writes_bytes_forM payload))

theorem encode_eq (t : MsgType) (payload : Bytes) (version : UInt16) :
    encode t payload version = .ok (spell (wireLength payload)
      (crc32 (body version t.code payload)) version t.code payload) := by
  have hout := ((writes_u32 (wireLength payload)).bind
    ((writes_u32 (crc32 (body version t.code payload))).bind
      (writes_bytes_forM (body version t.code payload)))) []
  unfold encode
  rw [writes_encodeBody t payload version []]
  exact congrArg (fun r => r >>= fun x => Except.ok x.2) hout

theorem exists_u32_append {b : Bytes} (h : 4 ≤ b.length) :
    ∃ v : UInt32, b = bytes 4 v.toNat ++ b.drop 4 := by
  obtain ⟨n, hn, hb⟩ := exists_bytes_append h
  refine ⟨UInt32.ofNat n, ?_⟩
  rw [UInt32.toNat_ofNat_of_lt' hn]
  exact hb

theorem exists_u16_append {b : Bytes} (h : 2 ≤ b.length) :
    ∃ v : UInt16, b = bytes 2 v.toNat ++ b.drop 2 := by
  obtain ⟨n, hn, hb⟩ := exists_bytes_append h
  refine ⟨UInt16.ofNat n, ?_⟩
  rw [UInt16.toNat_ofNat_of_lt' hn]
  exact hb

theorem exists_spell {b : Bytes} (h : 12 ≤ b.length) :
    ∃ len crc version code payload, b = spell len crc version code payload := by
  obtain ⟨len, hlen⟩ := exists_u32_append (b := b) (by omega)
  obtain ⟨crc, hcrc⟩ := exists_u32_append (b := b.drop 4) (by rw [List.length_drop]; omega)
  obtain ⟨version, hversion⟩ := exists_u16_append (b := (b.drop 4).drop 4)
    (by simp only [List.length_drop]; omega)
  obtain ⟨code, hcode⟩ := exists_u16_append (b := ((b.drop 4).drop 4).drop 2)
    (by simp only [List.length_drop]; omega)
  refine ⟨len, crc, version, code, (((b.drop 4).drop 4).drop 2).drop 2, ?_⟩
  rw [spell, body, ← hcode, ← hversion, ← hcrc]
  exact hlen

theorem decode_of_length_lt {b : Bytes} (h : b.length < 12) :
    ∃ e, decode b = some (.error e) := by
  unfold decode
  obtain ⟨len, r⟩ : UInt32 × BinaryReader := rU32.run { unread := b }
  by_cases hfailed : r.failed = true
  · exact ⟨_, if_pos hfailed⟩
  · by_cases hlen : len.toNat = b.length - 4
    · have hrange : len < 8 ∨ len > 64 * 1024 * 1024 := by
        apply Or.inl
        rw [UInt32.lt_iff_toNat_lt, hlen]
        change b.length - 4 < 8
        omega
      exact ⟨_, by simp only [hfailed, hlen, hrange, ne_eq, not_true, if_false, if_true]; rfl⟩
    · exact ⟨_, by simp only [hfailed, hlen, ne_eq, not_false_eq_true, if_true]; rfl⟩

/-- The checks on the body, by its fields. -/
theorem decodeBody_eq {r : BinaryReader} {version code : UInt16} {payload : Bytes}
    (hr : r.failed = false) (hunread : r.unread = body version code payload)
    (hlen : payload.length < 2 ^ 32) :
    decodeBody r =
      if version ≠ kProtocolVersion then
        .error (lit "unsupported protocol version " ++ decimal version.toNat)
      else match MsgType.ofCode code with
        | none => .error (lit "unknown message type " ++ decimal code.toNat)
        | some type => .ok { version, type, payload } := by
  obtain ⟨r₁, hrun₁, hr₁, hunread₁⟩ := reads_u16.complete hr ⟨version, trivial, rfl, rfl⟩ hunread
  obtain ⟨r₂, hrun₂, hr₂, hunread₂⟩ := reads_u16.complete hr₁ ⟨code, trivial, rfl, rfl⟩ hunread₁
  have hread₁ : rU16.run r = (version, r₁) := hrun₁
  have hread₂ : rU16.run r₁ = (code, r₂) := hrun₂
  have hpayload : r₂.unread = payload := hunread₂
  have hfailed : r₂.failed = false := hr₂
  have hto : (UInt32.ofNat payload.length).toNat = payload.length := UInt32.toNat_ofNat_of_lt' hlen
  have hraw : (readRaw (UInt32.ofNat r₂.remaining)).run r₂ =
      (payload, { r₂ with unread := [] }) := by
    change readRaw (UInt32.ofNat r₂.remaining) r₂ = _
    simp only [readRaw, unlessFailed, take, hfailed, hto, hpayload, remaining,
      Bool.false_eq_true, lt_irrefl, if_false, List.take_length, List.drop_length]
  have hend : (requireEnd.run { r₂ with unread := [] }) = (true, { r₂ with unread := [] }) := by
    change requireEnd _ = _
    simp [requireEnd, unlessFailed, atEnd, hfailed]
  unfold decodeBody
  simp only [hread₁, hread₂, hraw, hend]
  rfl

theorem slice_spell (len crc : UInt32) (version code : UInt16) (payload : Bytes) :
    slice (spell len crc version code payload) 8 (4 + payload.length) =
      some (body version code payload) := by
  have hdrop : (spell len crc version code payload).drop 8 = body version code payload := by
    rw [spell, ← List.append_assoc]
    exact List.drop_left' (by simp)
  rw [slice, length_spell, if_pos (by omega), hdrop, ← length_body version code payload,
    List.take_length]

/-- The checks of a declared length that agrees with the buffer. -/
theorem declared_length {len : UInt32} {n : ℕ} (h : len.toNat = 8 + n) :
    ¬ len < 4 ∧ ((len < 8 ∨ len > 64 * 1024 * 1024) ↔ 64 * 1024 * 1024 < 8 + n) ∧
      (len - 4).toNat = 4 + n := by
  have hlow : ¬ len < 8 := by
    rw [UInt32.lt_iff_toNat_lt]
    change ¬ len.toNat < 8
    omega
  have hfour : ¬ len < 4 := by
    rw [UInt32.lt_iff_toNat_lt]
    change ¬ len.toNat < 4
    omega
  refine ⟨hfour, ?_, ?_⟩
  · rw [← h]
    simp only [hlow, false_or]
    exact UInt32.lt_iff_toNat_lt
  · rw [UInt32.toNat_sub_of_le _ _ (UInt32.not_lt.mp hfour)]
    change len.toNat - 4 = _
    omega

/-- A nested reader of all that is left. -/
theorem sub_all {r : BinaryReader} {n : UInt32} (hr : r.failed = false)
    (hn : n.toNat = r.unread.length) :
    (sub n).run r = ({ unread := r.unread }, { r with unread := [] }) := by
  change sub n r = _
  simp only [sub, unlessFailed, hr, hn, remaining, Bool.false_eq_true, lt_irrefl, if_false,
    List.take_length, List.drop_length]

/-- Every check of the decoder, by the fields of the buffer. -/
theorem decode_spell (len crc : UInt32) (version code : UInt16) (payload : Bytes) :
    decode (spell len crc version code payload) = some
      (if len.toNat ≠ 8 + payload.length then
        .error (lit "frame length mismatch: declared " ++ decimal len.toNat ++ lit " but " ++
          decimal (8 + payload.length) ++ lit " bytes follow")
      else if 64 * 1024 * 1024 < 8 + payload.length then .error (lit "frame length out of range")
      else if crc32 (body version code payload) ≠ crc then .error (lit "checksum mismatch")
      else if version ≠ kProtocolVersion then
        .error (lit "unsupported protocol version " ++ decimal version.toNat)
      else match MsgType.ofCode code with
        | none => .error (lit "unknown message type " ++ decimal code.toNat)
        | some type => .ok { version, type, payload }) := by
  obtain ⟨r₁, hrun₁, hr₁, hunread₁⟩ := reads_u32.complete
    (s := { unread := spell len crc version code payload }) rfl ⟨len, trivial, rfl, rfl⟩ rfl
  obtain ⟨r₂, hrun₂, hr₂, hunread₂⟩ := reads_u32.complete hr₁ ⟨crc, trivial, rfl, rfl⟩ hunread₁
  have hread₁ : rU32.run { unread := spell len crc version code payload } = (len, r₁) := hrun₁
  have hread₂ : rU32.run r₁ = (crc, r₂) := hrun₂
  have hfailed₁ : r₁.failed = false := hr₁
  have hfailed₂ : r₂.failed = false := hr₂
  have hbody : r₂.unread = body version code payload := hunread₂
  have hsize : 12 + payload.length - 4 = 8 + payload.length := by omega
  unfold decode
  simp only [hread₁, hfailed₁, hread₂, length_spell, hsize, Bool.false_eq_true, if_false]
  by_cases hlen : len.toNat = 8 + payload.length
  · obtain ⟨hfour, hrange, hsub⟩ := declared_length hlen
    have hnested : (sub (len - 4)).run r₂ =
        ({ unread := body version code payload }, { r₂ with unread := [] }) := by
      rw [← hbody]
      exact sub_all hfailed₂ (by rw [hbody, length_body, hsub])
    have hlt : payload.length < 2 ^ 32 := by
      have := len.toNat_lt
      omega
    simp only [hlen, ne_eq, not_true_eq_false, if_false, hrange, hfour, hnested, hsub,
      slice_spell, Bool.false_eq_true]
    split
    · rfl
    · change (if _ then _ else _) = _
      split
      · rfl
      · rw [decodeBody_eq rfl rfl hlt]
  · rw [if_pos hlen, if_pos hlen]

/-- The decoder stays inside the buffer and answers with an error. -/
def Rejected (b : Bytes) : Prop := ∃ e, decode b = some (.error e)

/-- The largest frame, without its length field. -/
def maxLength : ℕ := 64 * 1024 * 1024

theorem toNat_wireLength {payload : Bytes} (h : payload.length + 8 ≤ maxLength) :
    (wireLength payload).toNat = 8 + payload.length := by
  unfold maxLength at h
  exact UInt32.toNat_ofNat_of_lt' (by change 8 + payload.length < 2 ^ 32; omega)

/-- A buffer by its fields is accepted when the fields agree with each other. -/
theorem decode_spell_eq_ok_iff (len crc : UInt32) (version code : UInt16) (payload : Bytes)
    (f : Frame) : decode (spell len crc version code payload) = some (.ok f) ↔
      len.toNat = 8 + payload.length ∧ payload.length + 8 ≤ maxLength ∧
        crc32 (body version code payload) = crc ∧ version = kProtocolVersion ∧
          code = f.type.code ∧ f = { version, type := f.type, payload } := by
  have hmax : payload.length + 8 ≤ maxLength ↔ ¬ 64 * 1024 * 1024 < 8 + payload.length := by
    unfold maxLength
    omega
  rw [decode_spell, Option.some_inj]
  constructor
  · intro h
    split at h
    · cases h
    rename_i hlen
    split at h
    · cases h
    rename_i hsize
    split at h
    · cases h
    rename_i hcrc
    split at h
    · cases h
    rename_i hversion
    split at h
    · cases h
    rename_i type htype
    cases h
    exact ⟨not_not.mp hlen, hmax.mpr hsize, not_not.mp hcrc, not_not.mp hversion,
      (MsgType.ofCode_eq_some_iff ..).mp htype, rfl⟩
  · rintro ⟨hlen, hsize, hcrc, hversion, hcode, hf⟩
    rw [if_neg (not_not.mpr hlen), if_neg (hmax.mp hsize), if_neg (not_not.mpr hcrc),
      if_neg (not_not.mpr hversion), (MsgType.ofCode_eq_some_iff ..).mpr hcode]
    exact congrArg Except.ok hf.symm

/-- The decoder accepts the buffers that the encoder writes, up to the size limit. -/
theorem decode_eq_ok_iff (b : Bytes) (f : Frame) : decode b = some (.ok f) ↔
    f.version = kProtocolVersion ∧ f.payload.length + 8 ≤ maxLength ∧
      encode f.type f.payload = .ok b := by
  rw [encode_eq, Except.ok.injEq]
  constructor
  · intro h
    by_cases hlength : b.length < 12
    · obtain ⟨e, he⟩ := decode_of_length_lt hlength
      rw [he] at h
      cases h
    · obtain ⟨len, crc, version, code, payload, rfl⟩ := exists_spell (Nat.not_lt.mp hlength)
      obtain ⟨hlen, hmax, hcrc, hversion, hcode, hf⟩ := (decode_spell_eq_ok_iff ..).mp h
      have hwire : wireLength payload = len := by
        apply UInt32.toNat_inj.mp
        rw [toNat_wireLength hmax, hlen]
      rw [hf]
      exact ⟨hversion, hmax, by rw [hwire, ← hversion, ← hcode, hcrc]⟩
  · rintro ⟨hversion, hmax, rfl⟩
    rw [decode_spell_eq_ok_iff]
    refine ⟨toNat_wireLength hmax, hmax, rfl, rfl, rfl, ?_⟩
    rw [← hversion]

theorem decode_ne_none (b : Bytes) : decode b ≠ none := by
  by_cases hlength : b.length < 12
  · obtain ⟨e, he⟩ := decode_of_length_lt hlength
    simp [he]
  · obtain ⟨len, crc, version, code, payload, rfl⟩ := exists_spell (Nat.not_lt.mp hlength)
    simp [decode_spell]

/-- What is not accepted is rejected. -/
theorem rejected_of_not_ok {b : Bytes} (h : ∀ f, decode b ≠ some (.ok f)) : Rejected b := by
  cases hb : decode b with
  | none => exact absurd hb (decode_ne_none b)
  | some r =>
    cases r with
    | error e => exact ⟨e, hb⟩
    | ok f => exact absurd hb (h f)

end Frame
end ServingObservatory
