import ServingObservatory.ObservationRoundTrip

/-!
# When decoding is canonical

The decoder forgets unknown presence bits, codes out of range, the byte of a true
boolean and the order of the fields, and it lets a confidence that is not finite
pass. It inverts the encoder exactly on the wire forms without such freedom.
-/
namespace ServingObservatory
open Std BigEndian Decoding BinaryWriter BinaryReader

/-- No NaN and no infinity. -/
structure Observation.Finite (o : Observation) : Prop where
  confidence : o.confidence.isFinite = true
  fields : ∀ k v, (k, FieldValue.f64 v) ∈ o.fields.toList → v.isFinite = true

/-- A presence byte without unknown bits is the one the writer computes. -/
theorem presence_eq {o : Observation} {pres : UInt8} (hlt : pres < 16)
    (h₀ : o.hasObsTs = hasPart pres 0) (h₁ : o.hasRecvTs = hasPart pres 1)
    (h₂ : o.hasHealth = hasPart pres 2) (h₃ : o.hasConfidence = hasPart pres 3) :
    presence o = pres := by
  have hall : ∀ n < 16, ∀ o : Observation, o.hasObsTs = hasPart (UInt8.ofNat n) 0 →
      o.hasRecvTs = hasPart (UInt8.ofNat n) 1 → o.hasHealth = hasPart (UInt8.ofNat n) 2 →
      o.hasConfidence = hasPart (UInt8.ofNat n) 3 → presence o = UInt8.ofNat n := by
    intro n hn o h₀ h₁ h₂ h₃
    unfold presence
    rw [h₀, h₁, h₂, h₃]
    interval_cases n <;> decide
  have hpres : UInt8.ofNat pres.toNat = pres := UInt8.toNat_inj.mp (by simp)
  rw [← hpres] at h₀ h₁ h₂ h₃ ⊢
  exact hall pres.toNat (UInt8.lt_iff_toNat_lt.mp hlt) o h₀ h₁ h₂ h₃

theorem SourceHealth.code_le (h : SourceHealth) : h.code ≤ SourceHealth.rejected.code := by
  cases h <;> decide

theorem SourceHealth.code_ofCode {h : UInt8} (hle : h ≤ SourceHealth.rejected.code) :
    (SourceHealth.ofCode h).code = h := by
  have hall : ∀ n < 7, (SourceHealth.ofNat n).code.toNat = n := by decide
  rw [SourceHealth.ofCode, if_pos hle]
  exact UInt8.toNat_inj.mp (hall _ (Nat.lt_succ_of_le (UInt8.le_iff_toNat_le.mp hle)))

theorem Provenance.code_le (p : Provenance) : p.code ≤ Provenance.heuristic.code := by
  cases p <;> decide

theorem Provenance.code_ofCode {p : UInt8} (hle : p ≤ Provenance.heuristic.code) :
    (Provenance.ofCode p).code = p := by
  have hall : ∀ n < 7, (Provenance.ofNat n).code.toNat = n := by decide
  rw [Provenance.ofCode, if_pos hle]
  exact UInt8.toNat_inj.mp (hall _ (Nat.lt_succ_of_le (UInt8.le_iff_toNat_le.mp hle)))

namespace WireValue

theorem encodable_value {w : WireValue} (h : w.Valid) : w.value.Encodable := by
  cases w <;> exact h

/-- A boolean is spelled zero or one. -/
def Canonical : WireValue → Prop
  | bool b => b ≤ 1
  | _ => True

theorem canonical_ofValue (v : FieldValue) : (ofValue v).Canonical := by
  cases v with
  | bool v => cases v <;> simp [ofValue, Canonical]
  | _ => trivial

theorem ofValue_value {w : WireValue} (h : w.Canonical) : ofValue w.value = w := by
  cases w with
  | bool b =>
    have hb : b.toNat ≤ 1 := UInt8.le_iff_toNat_le.mp h
    obtain rfl | rfl : b = 0 ∨ b = 1 := by
      rcases Nat.le_one_iff_eq_zero_or_eq_one.mp hb with h0 | h1
      · exact .inl (UInt8.toNat_inj.mp h0)
      · exact .inr (UInt8.toNat_inj.mp h1)
    · rfl
    · rfl
  | _ => rfl

end WireValue

/-- The forms that the writer produces: no unknown presence bit, no code out of
range, booleans zero or one, a finite confidence and strictly increasing keys. -/
structure WireObservation.Canonical (w : WireObservation) : Prop where
  pres : w.sections.pres < 16
  health : w.sections.health ≤ SourceHealth.rejected.code
  prov : w.sections.prov ≤ Provenance.heuristic.code
  confidence : w.sections.confidence.isFinite = true
  bools : ∀ p ∈ w.fields, p.2.Canonical
  sorted : OrderedMap.SortedKeys w.fields

namespace WireObservation

/-- What the decoder returns can be encoded. -/
theorem encodable_observation {w : WireObservation} (h : w.Valid) : w.observation.Encodable where
  obsTs := h.sections.obsTs
  recvTs := h.sections.recvTs
  health hp := by
    change SourceHealth.ofCode w.sections.health = .unknown
    rw [h.sections.health hp]
    decide
  confidence := h.sections.confidence
  clockDomain := h.clockDomain
  count := by
    refine (OrderedMap.size_emplaceAll_le _ _).trans ?_
    simpa using h.count
  fields := by
    rintro ⟨k, v⟩ hp
    have hget := ExtTreeMap.mem_toList_iff_getElem?_eq_some.mp hp
    rcases OrderedMap.mem_of_getElem?_emplaceAll hget with hempty | hmem
    · simp at hempty
    · obtain ⟨q, hq, hqp⟩ := List.mem_map.mp hmem
      obtain ⟨hkey, hvalue⟩ := h.fields q hq
      cases hqp
      exact ⟨hkey, WireValue.encodable_value hvalue⟩

theorem canonical_ofObservation {o : Observation} (h : o.confidence.isFinite = true) :
    (ofObservation o).Canonical where
  pres := (hasPart_presence o).2.2.2.2
  health := o.health.code_le
  prov := o.provenance.code_le
  confidence := h
  bools := by
    intro p hp
    obtain ⟨q, -, rfl⟩ := List.mem_map.mp hp
    exact WireValue.canonical_ofValue q.2
  sorted := List.pairwise_map.mpr (OrderedMap.sortedKeys_toList o.fields)

/-- A canonical form is the one the writer gives its observation. -/
theorem ofObservation_observation {w : WireObservation} (h : w.Canonical) :
    ofObservation w.observation = w := by
  obtain ⟨envelope, sections, fields⟩ := w
  have hsorted : OrderedMap.SortedKeys (fields.map fun p => (p.1, p.2.value)) :=
    List.pairwise_map.mpr h.sorted
  have hfields : (fields.map fun p => (p.1, p.2.value)).map
      (fun p => (p.1, WireValue.ofValue p.2)) = fields := by
    rw [List.map_map]
    refine (List.map_congr_left fun p hp => ?_).trans (List.map_id fields)
    exact Prod.ext rfl (WireValue.ofValue_value (h.bools p hp))
  have hpres : presence (observation ⟨envelope, sections, fields⟩) = sections.pres :=
    presence_eq h.pres rfl rfl rfl rfl
  have hhealth := SourceHealth.code_ofCode h.health
  have hprov := Provenance.code_ofCode h.prov
  simp only [ofObservation, hpres]
  simp only [observation, WireSections.addTo, WireEnvelope.observation,
    OrderedMap.toList_emplaceAll hsorted, hfields, hhealth, hprov]

end WireObservation

/-- What a decoder reads without forgetting anything is spelled as a prefix code. -/
theorem prefixCode_of_reads {ω : Type} {valid : ω → Prop} {spell : ω → Bytes}
    {m : StateM BinaryReader ω} (h : Reads input m (Spelled valid spell id)) :
    PrefixCode valid spell := h.prefixCode Function.injective_id exists_input

theorem WireEnvelope.code : PrefixCode
    (fun w : WireEnvelope => w.clockDomain.length < 2 ^ 32) WireEnvelope.spell := by
  refine WireEnvelope.reads.prefixCode (fun w w' h => ?_) exists_input
  cases w
  cases w'
  simpa [WireEnvelope.observation] using h

theorem WireSections.code : PrefixCode WireSections.Valid WireSections.spell := by
  intro w w' r r' hw hw' h
  simp only [WireSections.spell, List.flatten_cons, List.flatten_nil, List.append_nil,
    List.append_assoc] at h
  obtain ⟨hpres, h⟩ := prefixCode_of_reads reads_u8 trivial trivial h
  rw [← hpres] at h
  obtain ⟨hobs, h⟩ := prefixCode_of_reads (reads_timestamp (hasPart w.pres 0))
    ⟨fun _ => trivial, hw.obsTs⟩ ⟨fun _ => trivial, hpres ▸ hw'.obsTs⟩ h
  obtain ⟨hrecv, h⟩ := prefixCode_of_reads (reads_timestamp (hasPart w.pres 1))
    ⟨fun _ => trivial, hw.recvTs⟩ ⟨fun _ => trivial, hpres ▸ hw'.recvTs⟩ h
  obtain ⟨hhealth, h⟩ := prefixCode_of_reads (reads_u8.ite_pure (hasPart w.pres 2) 0)
    ⟨fun _ => trivial, hw.health⟩ ⟨fun _ => trivial, hpres ▸ hw'.health⟩ h
  obtain ⟨hconf, h⟩ := prefixCode_of_reads (reads_confidence (hasPart w.pres 3))
    ⟨fun _ => trivial, hw.confidence⟩ ⟨fun _ => trivial, hpres ▸ hw'.confidence⟩ h
  obtain ⟨hprov, hr⟩ := prefixCode_of_reads reads_u8 trivial trivial h
  refine ⟨?_, hr⟩
  cases w
  cases w'
  simp only at hpres hobs hrecv hhealth hconf hprov
  subst hpres hobs hrecv hhealth hconf hprov
  rfl

/-- Every form whose lengths fit in 32 bits, also those that the reader rejects. -/
def WireValue.Sized : WireValue → Prop
  | str v => v.length < 2 ^ 32
  | bytes v => v.length < 2 ^ 32
  | _ => True

theorem WireValue.Valid.sized {w : WireValue} (h : w.Valid) : w.Sized := by
  cases w with
  | str v => exact h
  | bytes v => exact h
  | _ => trivial

theorem WireValue.sized_ofValue (v : FieldValue) : (ofValue v).Sized ↔ v.Sized := by
  cases v <;> rfl

theorem WireValue.code : PrefixCode WireValue.Sized WireValue.spell := by
  intro w w' r r' hw hw' h
  obtain ⟨htag, hbody⟩ := List.cons.inj h
  cases w <;> cases w' <;> try cases htag
  · exact ⟨rfl, hbody⟩
  · exact (prefixCode_of_reads reads_u8 trivial trivial hbody).imp_left (congrArg bool)
  · exact (prefixCode_of_reads reads_i64 trivial trivial hbody).imp_left (congrArg i64)
  · exact (prefixCode_of_reads reads_u64 trivial trivial hbody).imp_left (congrArg u64)
  · exact (prefixCode_of_reads reads_u64 trivial trivial hbody).imp_left
      fun hbits => congrArg (fun bits => f64 ⟨bits⟩) hbits
  · exact (prefixCode_of_reads reads_prefixed hw hw' hbody).imp_left (congrArg str)
  · exact (prefixCode_of_reads reads_id trivial trivial hbody).imp_left (congrArg WireValue.id)
  · exact (prefixCode_of_reads reads_prefixed hw hw' hbody).imp_left (congrArg bytes)

def SizedField (p : Str × WireValue) : Prop := p.1.length < 2 ^ 32 ∧ p.2.Sized

theorem code_field : PrefixCode SizedField spellField := by
  rintro ⟨k, w⟩ ⟨k', w'⟩ r r' ⟨hk, hw⟩ ⟨hk', hw'⟩ h
  simp only [spellField, List.append_assoc] at h
  obtain ⟨hkey, htail⟩ := prefixCode_of_reads reads_prefixed hk hk' h
  obtain ⟨hvalue, hr⟩ := WireValue.code hw hw' htail
  exact ⟨Prod.ext hkey hvalue, hr⟩

namespace WireObservation

/-- Every length and the number of fields fit in 32 bits. -/
structure Sized (w : WireObservation) : Prop where
  clockDomain : w.envelope.clockDomain.length < 2 ^ 32
  sections : w.sections.Valid
  count : w.fields.length < 2 ^ 32
  fields : ∀ p ∈ w.fields, SizedField p

theorem Valid.sized {w : WireObservation} (h : w.Valid) : w.Sized where
  clockDomain := h.clockDomain
  sections := h.sections
  count := h.count.trans_lt (by decide)
  fields p hp := (h.fields p hp).imp_right WireValue.Valid.sized

/-- Different sized wire forms have different bytes, whatever follows them. -/
theorem code : PrefixCode Sized spell := by
  intro w w' r r' hw hw' h
  simp only [spell, List.flatten_cons, List.flatten_nil, List.append_nil, List.append_assoc] at h
  obtain ⟨henvelope, h⟩ := WireEnvelope.code hw.clockDomain hw'.clockDomain h
  obtain ⟨hsections, h⟩ := WireSections.code hw.sections hw'.sections h
  obtain ⟨hcount, h⟩ := List.append_inj h (by simp)
  have hlen : w.fields.length = w'.fields.length := bytes_inj hw.count hw'.count hcount
  obtain ⟨hfields, hr⟩ := code_field.flatMap hlen hw.fields hw'.fields h
  refine ⟨?_, hr⟩
  cases w
  cases w'
  exact congr (congr (congrArg mk henvelope) hsections) hfields

/-- Different valid wire forms have different bytes. -/
theorem spell_inj {w w' : WireObservation} (hw : w.Valid) (hw' : w'.Valid)
    (h : w.spell = w'.spell) : w = w' :=
  (code hw.sized hw'.sized (congrArg (· ++ []) h)).1

/-- The payload reader accepts nothing else. -/
theorem exists_of_readObservationPayload {b : Bytes} {o : Observation}
    (h : readObservationPayload b = .ok o) : ∃ w : WireObservation,
      w.Valid ∧ b = w.spell ∧ o = w.observation := by
  cases hres : readObservation.run.run { unread := b } with
  | mk e r =>
    simp only [readObservationPayload, hres] at h
    cases e with
    | error e => cases h
    | ok o' =>
      cases hend : (requireEnd.run r).1 with
      | false => simp [hend] at h
      | true =>
        obtain ⟨hok, hunread⟩ := (requireEnd_iff r).mp hend
        simp only [hend, if_true, Except.ok.injEq] at h
        subst h
        obtain ⟨-, bs, ⟨w, hw, rfl, rfl⟩, hb⟩ := reads.sound hres hok
        refine ⟨w, hw, hb.trans ?_, rfl⟩
        rw [show input.unread r = [] from hunread, List.append_nil]

end WireObservation

/-- The decoder is strict and canonical on a byte string exactly when the string
is not a valid but non-canonical wire form. -/
theorem strict_iff_canonical (b : Bytes) :
    (∀ o, readObservationPayload b = .ok o → encodeObservationPayload o = .ok b ∧ o.Finite) ↔
      ∀ w : WireObservation, w.Valid → b = w.spell → w.Canonical := by
  constructor
  · rintro hstrict w hw rfl
    obtain ⟨hencode, hfinite⟩ := hstrict _ (WireObservation.readObservationPayload_spell hw)
    have henc := WireObservation.encodable_observation hw
    rw [encodeObservationPayload_eq henc, Except.ok.injEq] at hencode
    have heq := WireObservation.spell_inj (WireObservation.valid_ofObservation henc) hw hencode
    rw [← heq]
    exact WireObservation.canonical_ofObservation hfinite.confidence
  · intro hcanonical o hread
    obtain ⟨w, hw, rfl, rfl⟩ := WireObservation.exists_of_readObservationPayload hread
    have hc := hcanonical w hw rfl
    have henc := WireObservation.encodable_observation hw
    refine ⟨?_, hc.confidence, fun k v hv => (henc.fields _ hv).2⟩
    rw [encodeObservationPayload_eq henc, WireObservation.ofObservation_observation hc]

/-- All bytes zero but for an unknown bit in the presence byte. -/
def unknownPresence : Bytes := List.replicate 102 0 ++ [0x10] ++ List.replicate 5 0

/-- The unknown bit is dropped, so the bytes are not the encoding of what they
are read as. -/
theorem not_strict_unknownPresence : ¬ ∀ o, readObservationPayload unknownPresence = .ok o →
    encodeObservationPayload o = .ok unknownPresence ∧ o.Finite := by
  intro h
  let w : WireObservation :=
    { envelope := ⟨{}, .unknown, {}, {}, {}, 0, 0, 0, 0, []⟩
      sections := ⟨0x10, 0, 0, 0, ⟨0⟩, 0⟩
      fields := [] }
  have hw : w.Valid :=
    ⟨by decide, ⟨fun _ => rfl, fun _ => rfl, fun _ => rfl, fun _ => rfl⟩, by decide, nofun⟩
  have hb : unknownPresence = w.spell := by decide
  have hread := WireObservation.readObservationPayload_spell hw
  rw [← hb] at hread
  have hencode := (h _ hread).1
  rw [encodeObservationPayload_eq (WireObservation.encodable_observation hw)] at hencode
  exact absurd (Except.ok.inj hencode) (by decide)

end ServingObservatory
