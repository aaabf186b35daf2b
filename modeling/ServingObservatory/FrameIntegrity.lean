import ServingObservatory.FrameDecoding

/-!
# What the decoder makes of a damaged frame

Truncation, extension and a changed length leave the length field in disagreement
with the buffer. A burst inside a window of four bytes cannot give another frame.
-/
namespace ServingObservatory
open BigEndian Decoding BinaryWriter BinaryReader

namespace Frame

/-- A buffer whose fields disagree, or name no version or type, is rejected. -/
theorem rejected_spell {len crc : UInt32} {version code : UInt16} {payload : Bytes}
    (h : len.toNat ≠ 8 + payload.length ∨ version ≠ kProtocolVersion ∨
      ∀ t : MsgType, code ≠ t.code) : Rejected (spell len crc version code payload) := by
  apply rejected_of_not_ok
  intro f hf
  obtain ⟨hlen, -, -, hversion, hcode, -⟩ := (decode_spell_eq_ok_iff ..).mp hf
  obtain h | h | h := h
  · exact h hlen
  · exact h hversion
  · exact h _ hcode

/-- No frame is a proper prefix of another. -/
theorem rejected_of_prefix {t : MsgType} {p b b' : Bytes} (hp : p.length + 8 ≤ maxLength)
    (hb : encode t p = .ok b) (hcut : b <+: b' ∨ b' <+: b) (hne : b' ≠ b) : Rejected b' := by
  apply rejected_of_not_ok
  intro f hf
  obtain ⟨-, hmax, hb'⟩ := (decode_eq_ok_iff b' f).mp hf
  rw [encode_eq, Except.ok.injEq] at hb hb'
  have htake : b.take 4 = b'.take 4 := by
    have hlen : 4 ≤ b.length ∧ 4 ≤ b'.length := by
      rw [← hb, ← hb', length_spell, length_spell]
      omega
    obtain ⟨rest, rfl⟩ | ⟨rest, rfl⟩ := hcut
    · exact (List.take_append_of_le_length hlen.1).symm
    · exact List.take_append_of_le_length hlen.2
  have hwire : (wireLength p).toNat = (wireLength f.payload).toNat := by
    rw [← hb, ← hb', spell, spell, List.take_left' (length_bytes 4 _),
      List.take_left' (length_bytes 4 _)] at htake
    exact bytes_inj (UInt32.toNat_lt _) (UInt32.toNat_lt _) htake
  have hlength : b.length = b'.length := by
    rw [toNat_wireLength hp, toNat_wireLength hmax] at hwire
    rw [← hb, ← hb', length_spell, length_spell]
    omega
  obtain h | h := hcut
  · exact hne (h.eq_of_length hlength).symm
  · exact hne (h.eq_of_length hlength.symm)

/-- The decoder accepts exactly the image of the encoder and rejects every other buffer,
among them those that are short, truncated, extended, of another length, version or type. -/
theorem decode_accepts_exactly_encodings :
    (∀ b t p, decode b = some (.ok { version := 1, type := t, payload := p }) ↔
      p.length + 8 ≤ 64 * 1024 * 1024 ∧ encode t p = .ok b) ∧
    (∀ b, (¬ ∃ t p, p.length + 8 ≤ 64 * 1024 * 1024 ∧ encode t p = .ok b) → Rejected b) ∧
    (∀ b, b.length < 12 → Rejected b) ∧
    (∀ t p b b', p.length + 8 ≤ 64 * 1024 * 1024 → encode t p = .ok b →
      (b <+: b' ∨ b' <+: b) → b' ≠ b → Rejected b') ∧
    (∀ len crc version code payload,
      (len.toNat ≠ 8 + payload.length ∨ version ≠ 1 ∨ ∀ t : MsgType, code ≠ t.code) →
        Rejected (spell len crc version code payload)) := by
  refine ⟨?_, ?_, ?_, ?_, ?_⟩
  · intro b t p
    rw [decode_eq_ok_iff]
    exact ⟨fun h => h.2, fun h => ⟨rfl, h⟩⟩
  · intro b h
    apply rejected_of_not_ok
    intro f hf
    exact h ⟨f.type, f.payload, ((decode_eq_ok_iff b f).mp hf).2⟩
  · intro b h
    exact decode_of_length_lt h
  · intro t p b b' hp hb hcut hne
    exact rejected_of_prefix hp hb hcut hne
  · intro len crc version code payload h
    exact rejected_spell h

/-- Bodies that agree outside a window of four bytes and have one checksum are equal. -/
theorem body_eq_of_window {b b' : Bytes} {k : ℕ} (hlen : b'.length = b.length)
    (hwindow : ∀ i, i < k ∨ k + 4 ≤ i → b'[i]? = b[i]?) (hcrc : crc32 b' = crc32 b) : b' = b := by
  have hfront : b'.take k = b.take k := by
    apply List.ext_getElem?
    intro i
    by_cases hi : i < k
    · rw [List.getElem?_take_of_lt hi, List.getElem?_take_of_lt hi, hwindow i (Or.inl hi)]
    · rw [List.getElem?_take_eq_none (by omega), List.getElem?_take_eq_none (by omega)]
  have hback : (b'.drop k).drop 4 = (b.drop k).drop 4 := by
    apply List.ext_getElem?
    intro i
    rw [List.drop_drop, List.drop_drop, List.getElem?_drop, List.getElem?_drop]
    exact hwindow _ (Or.inr (by omega))
  have hsplit : ∀ c : Bytes, c = c.take k ++ ((c.drop k).take 4 ++ (c.drop k).drop 4) := fun c => by
    rw [List.take_append_drop, List.take_append_drop]
  rw [hsplit b, hsplit b', hfront, hback] at hcrc
  have hm := crc32_burst_inj (by rw [List.length_take]; omega)
    (by simp only [List.length_take, List.length_drop, hlen]) hcrc
  rw [hsplit b, hsplit b', hfront, hback, hm]

/-- A body of the current version starts with three bytes that no type changes. -/
theorem body_eq (t : MsgType) (p : Bytes) :
    body kProtocolVersion t.code p = 0 :: 1 :: 0 :: UInt8.ofNat t.code.toNat :: p := by
  cases t <;> rfl

theorem getElem?_spell (len crc : UInt32) (version code : UInt16) (p : Bytes) (i : ℕ) :
    (spell len crc version code p)[8 + i]? = (body version code p)[i]? := by
  rw [spell, ← List.append_assoc, List.getElem?_append_right (by simp)]
  simp

/-- The checksum field is that of the first eight bytes. -/
theorem crc_eq_of_take {len crc crc' : UInt32} {version code version' code' : UInt16}
    {p p' : Bytes} (h : (spell len crc version code p).take 8 =
      (spell len crc' version' code' p').take 8) : crc = crc' := by
  have htake : ∀ (c : UInt32) (b : Bytes),
      (bytes 4 len.toNat ++ (bytes 4 c.toNat ++ b)).take 8 =
        bytes 4 len.toNat ++ bytes 4 c.toNat := fun c b => by
    rw [← List.append_assoc, List.take_left' (by simp)]
  rw [spell, spell, htake, htake] at h
  exact UInt32.toNat_inj.mp
    (bytes_inj (UInt32.toNat_lt _) (UInt32.toNat_lt _) (List.append_cancel_left h))

/-- A frame that differs from another one only in a window of four bytes is rejected. -/
theorem short_corruption_detected (t : MsgType) (p f f' : Bytes) (hf : encode t p = .ok f)
    (hne : f' ≠ f) (hlen : f'.length = f.length) (k : ℕ)
    (hwindow : ∀ i, i < k ∨ k + 4 ≤ i → f'[i]? = f[i]?) :
    ∃ e, decode f' = some (.error e) := by
  apply rejected_of_not_ok
  intro g hg
  obtain ⟨-, hmax, hf'⟩ := (decode_eq_ok_iff f' g).mp hg
  rw [encode_eq, Except.ok.injEq] at hf hf'
  subst hf hf'
  rw [length_spell, length_spell] at hlen
  have hwire : wireLength g.payload = wireLength p := by
    rw [wireLength, wireLength, Nat.add_left_cancel hlen]
  rw [hwire] at hne hwindow
  have hbody : body kProtocolVersion g.type.code g.payload ≠ body kProtocolVersion t.code p :=
    fun h => hne (by rw [spell, spell, h])
  obtain ⟨i, hi⟩ : ∃ i, (body kProtocolVersion g.type.code g.payload)[i]? ≠
      (body kProtocolVersion t.code p)[i]? := by
    by_contra h
    push Not at h
    exact hbody (List.ext_getElem? h)
  have hthree : 3 ≤ i := by
    by_contra hlt
    rw [body_eq, body_eq] at hi
    have hcases : i = 0 ∨ i = 1 ∨ i = 2 := by omega
    rcases hcases with rfl | rfl | rfl <;> exact hi rfl
  have hk : 8 ≤ k := by
    by_contra hlt
    have h := hwindow (8 + i) (Or.inr (by omega))
    rw [getElem?_spell, getElem?_spell] at h
    exact hi h
  have hcrc : crc32 (body kProtocolVersion g.type.code g.payload) =
      crc32 (body kProtocolVersion t.code p) := by
    apply crc_eq_of_take
    apply List.ext_getElem?
    intro j
    by_cases hj : j < 8
    · rw [List.getElem?_take_of_lt hj, List.getElem?_take_of_lt hj]
      exact hwindow j (Or.inl (by omega))
    · rw [List.getElem?_take_eq_none (by omega), List.getElem?_take_eq_none (by omega)]
  refine hbody (body_eq_of_window (k := k - 8) ?_ ?_ hcrc)
  · rw [length_body, length_body, Nat.add_left_cancel hlen]
  · intro j hj
    have h := hwindow (8 + j) (by omega)
    rwa [getElem?_spell, getElem?_spell] at h

/-- A ping whose type has become that of a pong. -/
theorem short_corruption_detected_ping :
    ∃ e, decode [0, 0, 0, 8, 190, 226, 32, 136, 0, 1, 0, 8] = some (.error e) := by
  refine short_corruption_detected .ping [] [0, 0, 0, 8, 190, 226, 32, 136, 0, 1, 0, 7] _
    (by decide) (by decide) rfl 11 ?_
  intro i hi
  obtain ⟨j, rfl⟩ | hlt : (∃ j, i = 12 + j) ∨ i < 11 := by
    by_cases h : i < 11
    · exact Or.inr h
    · exact Or.inl ⟨i - 12, by omega⟩
  · simp
  · interval_cases i <;> rfl

end Frame
end ServingObservatory
