import ServingObservatory.Payloads

/-!
# How strict the payloads of the protocol are

A HELLO and a STATUS have one spelling for each value, and what is accepted is the
spelling of what is returned. An acknowledgement forgets which byte stood for true.
-/
namespace ServingObservatory
open BigEndian Decoding BinaryWriter BinaryReader

/-- Every value that fits is read back, and only its encoding is read as it. -/
structure StrictInverse {α : Type} (fits : α → Prop) (encode : α → Except Str Bytes)
    (decode : Bytes → Except Str α) : Prop where
  readBack : ∀ a, fits a → ∃ b, encode a = .ok b ∧ decode b = .ok a
  canonical : ∀ b a, decode b = .ok a → encode a = .ok b

/-- A writer and a reader of the same spellings of the values that fit. -/
theorem strictInverse_of_spelled {α : Type} {fits : α → Prop} {spell : α → Bytes}
    {write : α → BinaryWriter Unit} {read : StateM BinaryReader α} (message : Str)
    (hw : ∀ a, Emits (write a) (fits a) (spell a)) (hr : Reads input read (Spelled fits spell id)) :
    StrictInverse fits (fun a => ((write a).run []).map Prod.snd)
      (decodePayload message read) where
  readBack a ha := ⟨spell a, ((hw a).run_eq_ok_iff _).mpr ⟨ha, rfl⟩,
    decodePayload_eq hr message ⟨a, ha, rfl, rfl⟩⟩
  canonical b a h := by
    obtain ⟨_, ha, rfl, rfl⟩ := (decodePayload_eq_ok_iff hr message b a).mp h
    exact ((hw _).run_eq_ok_iff _).mpr ⟨ha, rfl⟩

namespace WireObsAck

/-- The writer produces the forms with a byte zero or one. -/
theorem ofPayload_payload_iff (w : WireObsAck) : ofPayload w.payload = w ↔ w.accepted ≤ 1 := by
  obtain ⟨accepted, decision, total, reason⟩ := w
  have hbyte : (if (accepted != 0) = true then 1 else 0 : UInt8) = accepted ↔ accepted ≤ 1 := by
    by_cases hzero : accepted = 0
    · simp [hzero]
    · have hne : accepted.toNat ≠ 0 := fun h => hzero (UInt8.toNat_inj.mp h)
      have hone : (1 : UInt8).toNat = 1 := rfl
      rw [if_pos (by simpa using hzero), ← UInt8.toNat_inj, UInt8.le_iff_toNat_le, hone]
      omega
  simpa [ofPayload, payload] using hbyte

theorem spell_injective : Function.Injective spell := by
  intro w w' h
  obtain ⟨accepted, decision, total, reason⟩ := w
  obtain ⟨accepted', decision', total', reason'⟩ := w'
  simp only [spell, prefixed, List.singleton_append, List.cons.injEq] at h
  obtain ⟨haccepted, hdecision, h⟩ := h
  obtain ⟨htotal, h⟩ := List.append_inj h (by simp)
  obtain ⟨-, hreason⟩ := List.append_inj h (by simp)
  have htotal : total.toNat = total'.toNat := bytes_inj total.toNat_lt total'.toNat_lt htotal
  rw [WireObsAck.mk.injEq]
  exact ⟨haccepted, hdecision, UInt32.toNat_inj.mp htotal, hreason⟩

end WireObsAck

def encodeAck (a : ObsAckPayload) : Except Str Bytes :=
  encodeObsAck a.accepted a.decision a.acceptedTotal a.reason

theorem encodeAck_eq_ok_iff (a : ObsAckPayload) (b : Bytes) : encodeAck a = .ok b ↔
    (WireObsAck.ofPayload a).Valid ∧ b = (WireObsAck.ofPayload a).spell :=
  (WireObsAck.emits a).run_eq_ok_iff b

theorem decodeObsAck_eq_ok_iff (b : Bytes) (a : ObsAckPayload) : decodeObsAck b = .ok a ↔
    ∃ w : WireObsAck, w.Valid ∧ b = w.spell ∧ a = w.payload :=
  decodePayload_eq_ok_iff WireObsAck.reads _ b a

/-- HELLO and STATUS are strict. An acknowledgement is read back, and the bytes that are read
as one are its encoding unless they spell true as a byte above one. -/
theorem payloads_strict_iff (b : Bytes) :
    StrictInverse HelloPayload.Fits encodeHello decodeHello ∧
      StrictInverse StatusPayload.Fits encodeStatus decodeStatus ∧
      (∀ a : ObsAckPayload, a.reason.length < 2 ^ 32 →
        ∃ b, encodeAck a = .ok b ∧ decodeObsAck b = .ok a) ∧
      ((∀ a, decodeObsAck b = .ok a → encodeAck a = .ok b) ↔
        ∀ w : WireObsAck, w.Valid → w.spell = b → w.accepted ≤ 1) := by
  have hhello := strictInverse_of_spelled (lit "hello") HelloPayload.emits HelloPayload.reads
  have hstatus := strictInverse_of_spelled (lit "status") StatusPayload.emits StatusPayload.reads
  refine ⟨hhello, hstatus, fun a ha => ?_, fun h w hw hb => ?_, fun h a ha => ?_⟩
  · have hvalid : (WireObsAck.ofPayload a).Valid := ha
    refine ⟨_, (encodeAck_eq_ok_iff a _).mpr ⟨hvalid, rfl⟩, ?_⟩
    exact (decodeObsAck_eq_ok_iff _ a).mpr ⟨_, hvalid, rfl, (WireObsAck.payload_ofPayload a).symm⟩
  · have hread := h w.payload ((decodeObsAck_eq_ok_iff b _).mpr ⟨w, hw, hb.symm, rfl⟩)
    obtain ⟨-, hspell⟩ := (encodeAck_eq_ok_iff _ b).mp hread
    exact w.ofPayload_payload_iff.mp (WireObsAck.spell_injective (hb.trans hspell)).symm
  · obtain ⟨w, hw, rfl, rfl⟩ := (decodeObsAck_eq_ok_iff b a).mp ha
    have hform := w.ofPayload_payload_iff.mpr (h w hw rfl)
    exact (encodeAck_eq_ok_iff _ _).mpr ⟨hform ▸ hw, congrArg _ hform.symm⟩

/-- An acknowledgement that spells true as two is read, and is encoded with a one. -/
theorem not_strict_acceptedTwo :
    ¬ (StrictInverse HelloPayload.Fits encodeHello decodeHello ∧
      StrictInverse (fun a : ObsAckPayload => a.reason.length < 2 ^ 32) encodeAck decodeObsAck ∧
      StrictInverse StatusPayload.Fits encodeStatus decodeStatus) := by
  rintro ⟨-, h, -⟩
  have hread : decodeObsAck [2, 0, 0, 0, 0, 0, 0, 0, 0, 0] = .ok { accepted := true } := by decide
  have hback := h.canonical _ _ hread
  revert hback
  decide

end ServingObservatory
