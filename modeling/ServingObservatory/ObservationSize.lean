import ServingObservatory.ObservationRoundTrip

/-!
# The size of an encoded observation

How many bytes the writer gives an observation, computed from the observation: the
fixed parts of the envelope, the optional parts that are there, and the fields.
-/
namespace ServingObservatory
open BigEndian BinaryWriter

/-- The bytes of a tagged value. -/
def FieldValue.encodedSize : FieldValue → ℕ
  | .null => 1
  | .bool _ => 2
  | .i64 _ | .u64 _ | .f64 _ => 9
  | .str v => 5 + v.length
  | .id _ => 17
  | .bytes v => 5 + v.length

/-- The bytes of a payload. -/
def Observation.encodedSize (o : Observation) : ℕ :=
  102 + o.clockDomain.length + (if o.hasObsTs then 8 else 0) + (if o.hasRecvTs then 8 else 0) +
    (if o.hasHealth then 1 else 0) + (if o.hasConfidence then 4 else 0) + 6 +
    (o.fields.toList.map fun p => 4 + p.1.length + p.2.encodedSize).sum

@[simp] theorem length_toBytes (v : Id128) : v.toBytes.length = 16 := by
  simp [Id128.toBytes_eq]

@[simp] theorem length_prefixed (bs : Bytes) : (prefixed bs).length = 4 + bs.length := by
  simp [prefixed]

theorem WireValue.length_spell (v : FieldValue) : (ofValue v).spell.length = v.encodedSize := by
  cases v <;> simp [ofValue, spell, body, FieldValue.encodedSize] <;> omega

theorem WireObservation.length_spell (o : Observation) :
    (ofObservation o).spell.length = o.encodedSize := by
  obtain ⟨h₀, h₁, h₂, h₃, -⟩ := hasPart_presence o
  have hsections : (ofObservation o).sections.spell.length =
      2 + (if o.hasObsTs then 8 else 0) + (if o.hasRecvTs then 8 else 0) +
        (if o.hasHealth then 1 else 0) + (if o.hasConfidence then 4 else 0) := by
    simp only [WireSections.spell, ofObservation, h₀, h₁, h₂, h₃]
    split <;> split <;> split <;> split <;> simp
  have henvelope : (ofObservation o).envelope.spell.length = 102 + o.clockDomain.length := by
    simp [WireEnvelope.spell, ofObservation]
    omega
  have hfields : ((ofObservation o).fields.flatMap spellField).length =
      (o.fields.toList.map fun p => 4 + p.1.length + p.2.encodedSize).sum := by
    simp [ofObservation, List.length_flatMap, List.map_map, Function.comp_def, spellField,
      WireValue.length_spell]
  simp only [spell, List.flatten_cons, List.flatten_nil, List.append_nil, List.length_append,
    henvelope, hsections, length_bytes, hfields, Observation.encodedSize]
  omega

end ServingObservatory
