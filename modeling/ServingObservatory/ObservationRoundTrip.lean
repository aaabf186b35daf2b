import ServingObservatory.ObservationWire

/-!
# Encoding and decoding observations

The writer gives an observation one wire form. The decoder reads that form as the
observation itself, and it leaves the bytes that follow unread.
-/
namespace ServingObservatory
open Std BigEndian Decoding BinaryWriter BinaryReader

/-- Finite floats, and strings whose length fits in 32 bits. -/
def FieldValue.Encodable : FieldValue → Prop
  | .f64 v => v.isFinite = true
  | .str v => v.length < 2 ^ 32
  | .bytes v => v.length < 2 ^ 32
  | _ => True

instance : DecidablePred FieldValue.Encodable
  | .f64 v => inferInstanceAs (Decidable (v.isFinite = true))
  | .str v => inferInstanceAs (Decidable (v.length < 2 ^ 32))
  | .bytes v => inferInstanceAs (Decidable (v.length < 2 ^ 32))
  | .null | .bool _ | .i64 _ | .u64 _ | .id _ => isTrue trivial

/-- Strings whose length fits in 32 bits, and any other value. -/
def FieldValue.Sized : FieldValue → Prop
  | .str v => v.length < 2 ^ 32
  | .bytes v => v.length < 2 ^ 32
  | _ => True

/-- Every length and the number of fields fit in 32 bits, as the writer demands. -/
structure Observation.Sized (o : Observation) : Prop where
  clockDomain : o.clockDomain.length < 2 ^ 32
  count : o.fields.size < 2 ^ 32
  fields : ∀ p ∈ o.fields.toList, p.1.length < 2 ^ 32 ∧ p.2.Sized

/-- Absent parts hold their defaults, and every value and length fits the format. -/
structure Observation.Encodable (o : Observation) : Prop where
  obsTs : o.hasObsTs = false → o.obsTs = 0
  recvTs : o.hasRecvTs = false → o.recvTs = 0
  health : o.hasHealth = false → o.health = .unknown
  confidence : o.hasConfidence = false → o.confidence = ⟨0⟩
  clockDomain : o.clockDomain.length < 2 ^ 32
  count : o.fields.size ≤ 16777216
  fields : ∀ p ∈ o.fields.toList, p.1.length < 2 ^ 32 ∧ p.2.Encodable

theorem FieldValue.Encodable.sized {v : FieldValue} (h : v.Encodable) : v.Sized := by
  cases v with
  | str v => exact h
  | bytes v => exact h
  | _ => trivial

theorem Observation.Encodable.sized {o : Observation} (h : o.Encodable) : o.Sized where
  clockDomain := h.clockDomain
  count := h.count.trans_lt (by decide)
  fields p hp := (h.fields p hp).imp_right FieldValue.Encodable.sized

theorem hasPart_presence (o : Observation) : hasPart (presence o) 0 = o.hasObsTs ∧
    hasPart (presence o) 1 = o.hasRecvTs ∧ hasPart (presence o) 2 = o.hasHealth ∧
    hasPart (presence o) 3 = o.hasConfidence ∧ presence o < 16 := by
  unfold presence
  cases o.hasObsTs <;> cases o.hasRecvTs <;> cases o.hasHealth <;> cases o.hasConfidence <;> decide

theorem SourceHealth.ofCode_code (h : SourceHealth) : SourceHealth.ofCode h.code = h := by
  cases h <;> decide

theorem Provenance.ofCode_code (p : Provenance) : Provenance.ofCode p.code = p := by
  cases p <;> decide

namespace WireValue

theorem valid_ofValue (v : FieldValue) : (ofValue v).Valid ↔ v.Encodable := by
  cases v <;> rfl

theorem emits_fv (v : FieldValue) : Emits (writeFv v) v.Sized (ofValue v).spell := by
  have htag : ∀ (t : UInt8) {m : BinaryWriter Unit} {q : Prop} {out : Bytes}, Emits m q out →
      Emits (do writeU8 t; m) q (t :: out) := fun t m q out hm =>
    ((writes_u8 t).emits.bind hm).congr (by simp)
  cases v with
  | null => exact (writes_u8 0).emits
  | bool v => exact htag 1 (writes_append _).emits
  | i64 v => exact htag 2 (writes_u64 _).emits
  | u64 v => exact htag 3 (writes_u64 v).emits
  | f64 v => exact htag 4 (writes_u64 v.bits).emits
  | str v => exact htag 5 (emits_str v)
  | id v => exact htag 6 (writes_append _).emits
  | bytes v => exact htag 7 (emits_bytes v)

end WireValue

/-- The wire form that the writer gives an observation. -/
def WireObservation.ofObservation (o : Observation) : WireObservation where
  envelope := ⟨o.id.raw, o.type, o.source.raw, o.worker.raw, o.boot.raw, o.srcGen, o.obsGen,
    o.epoch, o.seq, o.clockDomain⟩
  sections := ⟨presence o, o.obsTs, o.recvTs, o.health.code, o.confidence, o.provenance.code⟩
  fields := o.fields.toList.map fun p => (p.1, WireValue.ofValue p.2)

theorem emits_envelope (o : Observation) : Emits (writeEnvelope o) (o.clockDomain.length < 2 ^ 32)
    (WireObservation.ofObservation o).envelope.spell := by
  have hw : Emits (writeEnvelope o) _ _ :=
    (writes_append o.id.raw.toBytes).emits.bind <| (writes_u16 o.type.code).emits.bind <|
    (writes_append o.source.raw.toBytes).emits.bind <|
    (writes_append o.worker.raw.toBytes).emits.bind <|
    (writes_append o.boot.raw.toBytes).emits.bind <| (writes_u64 o.srcGen).emits.bind <|
    (writes_u64 o.obsGen).emits.bind <| (writes_u64 o.epoch).emits.bind <|
    (writes_u64 o.seq).emits.bind <| emits_str o.clockDomain
  simpa [WireEnvelope.spell, WireObservation.ofObservation] using hw

theorem writes_sections (o : Observation) :
    Writes (writeSections o) (WireObservation.ofObservation o).sections.spell := by
  obtain ⟨h₀, h₁, h₂, h₃, -⟩ := hasPart_presence o
  have hw : Writes (writeSections o) _ :=
    (writes_u8 (presence o)).bind <| ((writes_u64 o.obsTs).writeIf o.hasObsTs).bind <|
    ((writes_u64 o.recvTs).writeIf o.hasRecvTs).bind <|
    ((writes_u8 o.health.code).writeIf o.hasHealth).bind <|
    ((writes_u32 o.confidence.bits).writeIf o.hasConfidence).bind <| writes_u8 o.provenance.code
  simpa [WireSections.spell, WireObservation.ofObservation, h₀, h₁, h₂, h₃] using hw

theorem emits_field (p : Str × FieldValue) : Emits (writeField p)
    (p.1.length < 2 ^ 32 ∧ p.2.Sized) (spellField (p.1, WireValue.ofValue p.2)) :=
  (emits_str p.1).bind (WireValue.emits_fv p.2)

theorem emits_observation (o : Observation) :
    Emits (writeObservation o) o.Sized (WireObservation.ofObservation o).spell := by
  have hw : Emits (writeObservation o) _ _ :=
    (emits_envelope o).bind <| (writes_sections o).emits.bind <|
    (emits_checked (lit "count overflow") o.fields.size).bind <|
    Emits.forM emits_field o.fields.toList
  have hiff : (_ ∧ True ∧ _ ∧ _) ↔ o.Sized :=
    ⟨fun h => ⟨h.1, h.2.2.1, h.2.2.2⟩, fun h => ⟨h.clockDomain, trivial, h.count, h.fields⟩⟩
  simpa [WireObservation.spell, WireObservation.ofObservation, List.flatMap_map]
    using hw.congr hiff

/-- Encoding succeeds exactly on sized observations, with the form of the observation. -/
theorem encodeObservationPayload_eq_ok_iff (o : Observation) (b : Bytes) :
    encodeObservationPayload o = .ok b ↔ o.Sized ∧ b = (WireObservation.ofObservation o).spell :=
  (emits_observation o).run_eq_ok_iff b

theorem encodeObservationPayload_eq {o : Observation} (h : o.Encodable) :
    encodeObservationPayload o = .ok (WireObservation.ofObservation o).spell :=
  (encodeObservationPayload_eq_ok_iff o _).mpr ⟨h.sized, rfl⟩

namespace WireObservation

theorem valid_ofObservation {o : Observation} (h : o.Encodable) : (ofObservation o).Valid := by
  obtain ⟨h₀, h₁, h₂, h₃, -⟩ := hasPart_presence o
  refine ⟨h.clockDomain, ⟨?_, ?_, ?_, ?_⟩, ?_, ?_⟩
  · exact fun hp => h.obsTs (h₀.symm.trans hp)
  · exact fun hp => h.recvTs (h₁.symm.trans hp)
  · exact fun hp => congrArg SourceHealth.code (h.health (h₂.symm.trans hp))
  · exact fun hp => h.confidence (h₃.symm.trans hp)
  · simpa [ofObservation] using h.count
  · intro p hp
    obtain ⟨q, hq, rfl⟩ := List.mem_map.mp hp
    obtain ⟨hkey, hvalue⟩ := h.fields q hq
    exact ⟨hkey, (WireValue.valid_ofValue q.2).mpr hvalue⟩

theorem observation_ofObservation (o : Observation) : (ofObservation o).observation = o := by
  obtain ⟨h₀, h₁, h₂, h₃, -⟩ := hasPart_presence o
  have hfields : OrderedMap.emplaceAll ∅ ((ofObservation o).fields.map
      fun p => (p.1, p.2.value)) = o.fields := by
    have hid : (fun p : Str × FieldValue => (p.1, (WireValue.ofValue p.2).value)) = id := by
      funext p
      rw [WireValue.value_ofValue]
      rfl
    simp only [ofObservation, List.map_map, Function.comp_def, hid, List.map_id,
      OrderedMap.emplaceAll_toList]
  simp only [observation, hfields]
  simp only [WireSections.addTo, WireEnvelope.observation, ofObservation, h₀, h₁, h₂, h₃,
    SourceHealth.ofCode_code, Provenance.ofCode_code]

/-- The payload reader accepts every valid form. -/
theorem readObservationPayload_spell {w : WireObservation} (h : w.Valid) :
    readObservationPayload w.spell = .ok w.observation := by
  have hstart : BinaryReader.input.ok { unread := w.spell } := rfl
  have hall : BinaryReader.input.unread { unread := w.spell } = w.spell ++ [] :=
    (List.append_nil _).symm
  obtain ⟨r, hrun, hok, hunread⟩ := reads.complete hstart ⟨w, h, rfl, rfl⟩ hall
  have hres : readObservation.run.run { unread := w.spell } = (.ok w.observation, r) := hrun
  have hend : (requireEnd.run r).1 = true := (requireEnd_iff r).mpr ⟨hok, hunread⟩
  simp only [readObservationPayload, hres, hend, if_true]

end WireObservation

/-- Decoding inverts encoding: every encodable observation is encoded, and its
bytes are read back as that observation with what follows them left unread. -/
theorem observation_roundTrip (o : Observation) (h : o.Encodable) :
    ∃ b, encodeObservationPayload o = .ok b ∧
      (∀ (r : BinaryReader) (rest : Bytes), r.failed = false → r.unread = b ++ rest →
        ∃ r', readObservation.run.run r = (.ok o, r') ∧ r'.failed = false ∧ r'.unread = rest) ∧
      readObservationPayload b = .ok o := by
  have hvalid := WireObservation.valid_ofObservation h
  have ho := WireObservation.observation_ofObservation o
  refine ⟨_, encodeObservationPayload_eq h, fun r rest hok hr => ?_, ?_⟩
  · obtain ⟨r', hrun, hok', hrest⟩ := WireObservation.reads.complete hok ⟨_, hvalid, rfl, rfl⟩ hr
    rw [ho] at hrun
    exact ⟨r', hrun, hok', hrest⟩
  · rw [WireObservation.readObservationPayload_spell hvalid, ho]

/-- An observation with two of its optional parts and two fields. -/
theorem observation_roundTrip_sample :
    let o : Observation :=
      { hasObsTs := true, obsTs := 7, hasHealth := true, health := .down,
        fields := ((∅ : ExtTreeMap Str FieldValue).insert (lit "kv") (.bool true)).insert
          (lit "a") (.str (lit "x")) }
    ∃ b, encodeObservationPayload o = .ok b ∧ readObservationPayload b = .ok o := by
  intro o
  have hfields : o.fields.toList = [(lit "a", .str (lit "x")), (lit "kv", .bool true)] := by
    decide
  have h : o.Encodable :=
    { obsTs := nofun
      recvTs := fun _ => rfl
      health := nofun
      confidence := fun _ => rfl
      clockDomain := by decide
      count := by decide
      fields := by rw [hfields]; decide }
  obtain ⟨b, hb, -, hread⟩ := observation_roundTrip o h
  exact ⟨b, hb, hread⟩

end ServingObservatory
