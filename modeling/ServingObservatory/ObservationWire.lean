import ServingObservatory.BinaryLanguage
import ServingObservatory.ObservationCodec

/-!
# The wire form of observations

A wire form keeps every byte of an encoded observation, also those that decoding
forgets: the whole presence byte, the codes of health and provenance, the bytes
of booleans and the order of the fields. The decoder reads exactly the spellings
of valid wire forms.
-/
namespace ServingObservatory
open Std BigEndian Decoding BinaryWriter BinaryReader

/-- A field value as it is spelled. -/
inductive WireValue
  | null
  | bool (b : UInt8)
  | i64 (v : Int64)
  | u64 (v : UInt64)
  | f64 (v : F64)
  | str (v : Str)
  | id (v : Id128)
  | bytes (v : Bytes)

namespace WireValue

def tag : WireValue → UInt8
  | null => 0
  | bool _ => 1
  | i64 _ => 2
  | u64 _ => 3
  | f64 _ => 4
  | str _ => 5
  | id _ => 6
  | bytes _ => 7

def body : WireValue → Bytes
  | null => []
  | bool b => [b]
  | i64 v => BigEndian.bytes 8 v.toUInt64.toNat
  | u64 v => BigEndian.bytes 8 v.toNat
  | f64 v => BigEndian.bytes 8 v.bits.toNat
  | str v => prefixed v
  | id v => v.toBytes
  | bytes v => prefixed v

def spell (w : WireValue) : Bytes := w.tag :: w.body

/-- The forms that the reader accepts. -/
def Valid : WireValue → Prop
  | f64 v => v.isFinite = true
  | str v => v.length < 2 ^ 32
  | bytes v => v.length < 2 ^ 32
  | _ => True

/-- The value that the reader returns. -/
def value : WireValue → FieldValue
  | null => .null
  | bool b => .bool (b != 0)
  | i64 v => .i64 v
  | u64 v => .u64 v
  | f64 v => .f64 v
  | str v => .str v
  | id v => .id v
  | bytes v => .bytes v

/-- The form that the writer gives a value. -/
def ofValue : FieldValue → WireValue
  | .null => null
  | .bool v => bool (if v then 1 else 0)
  | .i64 v => i64 v
  | .u64 v => u64 v
  | .f64 v => f64 v
  | .str v => str v
  | .id v => id v
  | .bytes v => bytes v

@[simp] theorem value_ofValue (v : FieldValue) : (ofValue v).value = v := by
  cases v with
  | bool v => cases v <;> rfl
  | _ => rfl

/-- The reader of one kind of value reads the forms of the tag of that kind. -/
theorem reads_kind {γ ω : Type} {m : StateM BinaryReader γ} {valid : ω → Prop} {spell : ω → Bytes}
    {view : ω → γ} (hm : Reads input m (Spelled valid spell view)) (f : γ → FieldValue)
    (c : ω → WireValue) {tag : UInt8} {n : ℕ} (htag : tag.toNat = n)
    (hvalid : ∀ w : WireValue, w.Valid ∧ w.tag.toNat = n ↔ ∃ v, valid v ∧ c v = w)
    (hbody : ∀ v, (c v).body = spell v) (hvalue : ∀ v, (c v).value = f (view v)) :
    Reads input (m >>= fun a => pure (f a))
      (Spelled (fun w : WireValue => w.Valid ∧ w.tag = tag) body value) := by
  subst htag
  simp only [UInt8.toNat_inj] at hvalid
  exact (hm.bind_pure f).reindex c hvalid hbody hvalue

theorem reads_tagged (tag : UInt8) : Reads input (readTagged tag)
    (Spelled (fun w : WireValue => w.Valid ∧ w.tag = tag) body value) := by
  unfold readTagged
  split
  · next h =>
    have hunit : Reads input (pure () : StateM BinaryReader Unit)
        (Spelled (fun _ : Unit => True) (fun _ => []) fun _ => ()) :=
      (Reads.pure ()).congr fun bs a => by simp [Spelled]
    refine reads_kind hunit (fun _ => .null) (fun _ => null) h (fun w => ?_) (fun _ => rfl)
      fun _ => rfl
    cases w <;> simp [Valid, WireValue.tag]
  · next h =>
    refine reads_kind reads_bool .bool bool h (fun w => ?_) (fun _ => rfl) fun _ => rfl
    cases w <;> simp [Valid, WireValue.tag]
  · next h =>
    refine reads_kind reads_i64 .i64 i64 h (fun w => ?_) (fun _ => rfl) fun _ => rfl
    cases w <;> simp [Valid, WireValue.tag]
  · next h =>
    refine reads_kind reads_u64 .u64 u64 h (fun w => ?_) (fun _ => rfl) fun _ => rfl
    cases w <;> simp [Valid, WireValue.tag]
  · next h =>
    refine reads_kind reads_f64 .f64 f64 h (fun w => ?_) (fun _ => rfl) fun _ => rfl
    cases w <;> simp [Valid, WireValue.tag]
  · next h =>
    refine reads_kind reads_prefixed .str str h (fun w => ?_) (fun _ => rfl) fun _ => rfl
    cases w <;> simp [Valid, WireValue.tag]
  · next h =>
    refine reads_kind reads_id .id WireValue.id h (fun w => ?_) (fun _ => rfl) fun _ => rfl
    cases w <;> simp [Valid, WireValue.tag]
  · next h =>
    refine reads_kind reads_prefixed .bytes WireValue.bytes h (fun w => ?_) (fun _ => rfl)
      fun _ => rfl
    cases w <;> simp [Valid, WireValue.tag]
  · refine (reads_failIf true _ _).congr fun bs v => ?_
    constructor
    · rintro ⟨htrue, -⟩
      cases htrue
    · rintro ⟨w, ⟨-, rfl⟩, -⟩
      cases w <;> contradiction

/-- A field value is read from a tag and a body. -/
theorem reads_fv : Reads input readFv (Spelled Valid spell value) := by
  refine (reads_u8.bind fun tag => reads_unlessFailed (reads_tagged tag) _).congr fun bs v => ?_
  constructor
  · rintro ⟨tag, -, _, rfl, w, ⟨hw, rfl⟩, rfl, rfl⟩
    exact ⟨w, hw, rfl, rfl⟩
  · rintro ⟨w, hw, rfl, rfl⟩
    exact ⟨w.tag, trivial, w.body, rfl, w, ⟨hw, rfl⟩, rfl, rfl⟩

end WireValue

theorem reads_requireOk (context : Str) : Reads input (requireOk context)
    (Spelled (fun _ : Unit => True) (fun _ => []) id) where
  sound := by
    intro s t a hrun hok
    have hst : ((if s.failed then .error (context ++ s.err) else .ok (), s) :
      Except Str Unit × BinaryReader) = (.ok a, t) := hrun
    obtain ⟨-, rfl⟩ := Prod.mk.inj hst
    exact ⟨hok, [], ⟨(), trivial, rfl, rfl⟩, rfl⟩
  complete := by
    rintro s bs rest a hok ⟨_, -, rfl, rfl⟩ hs
    refine ⟨s, ?_, hok, hs⟩
    have hfailed : s.failed = false := hok
    change ((if s.failed then .error (context ++ s.err) else .ok (), s) :
      Except Str Unit × BinaryReader) = (.ok (), s)
    rw [hfailed]
    rfl

/-- A field as it is spelled: a key and a value. -/
def spellField (p : Str × WireValue) : Bytes := prefixed p.1 ++ p.2.spell

def ValidField (p : Str × WireValue) : Prop := p.1.length < 2 ^ 32 ∧ p.2.Valid

/-- Every round of the field loop reads one field and keeps the first value of a key. -/
theorem reads_fields (n : ℕ) (fields : ExtTreeMap Str FieldValue) :
    Reads input (readFields n fields)
      (Spelled (fun l : List (Str × WireValue) => l.length = n ∧ ∀ p ∈ l, ValidField p)
        (List.flatMap spellField)
        fun l => OrderedMap.emplaceAll fields (l.map fun p => (p.1, p.2.value))) := by
  induction n generalizing fields with
  | zero =>
    refine (Reads.pure fields).congr fun bs a => ?_
    constructor
    · rintro ⟨rfl, rfl⟩
      exact ⟨[], ⟨rfl, by simp⟩, rfl, rfl⟩
    · rintro ⟨l, ⟨hl, -⟩, rfl, rfl⟩
      obtain rfl := List.length_eq_zero_iff.mp hl
      exact ⟨rfl, rfl⟩
  | succ n ih =>
    refine (reads_prefixed.lift.bind fun key => (reads_requireOk _).bind fun _ =>
      WireValue.reads_fv.lift.bind fun v => (reads_requireOk _).bind fun _ =>
        ih (fields.insertIfNew key v)).congr fun bs a => ?_
    constructor
    · rintro ⟨key, hkey, _, rfl, -, -, _, rfl, w, hw, _, rfl, -, -, _, rfl, l, ⟨hl, hvalid⟩,
        rfl, rfl⟩
      refine ⟨(key, w) :: l, ⟨congrArg _ hl, ?_⟩, ?_, rfl⟩
      · exact List.forall_mem_cons.mpr ⟨⟨hkey, hw⟩, hvalid⟩
      · simp [spellField]
    · rintro ⟨l, ⟨hl, hvalid⟩, rfl, rfl⟩
      cases l with
      | nil => cases hl
      | cons p l =>
        obtain ⟨⟨hkey, hw⟩, hvalid⟩ := List.forall_mem_cons.mp hvalid
        exact ⟨p.1, hkey, p.2.spell ++ l.flatMap spellField, by simp [spellField], (), trivial, _,
          rfl, p.2, hw, _, rfl, (), trivial, _, rfl, l, ⟨Nat.succ.inj hl, hvalid⟩, rfl, rfl⟩

theorem ObsType.ofCode?_eq_some {t : UInt16} {type : ObsType} :
    ObsType.ofCode? t = some type ↔ type.code = t := by
  have hcast : ∀ n < 42, (ObsType.ofNat n).code.toNat = n := by decide
  have hback : ∀ type : ObsType, ObsType.ofNat type.code.toNat = type := by
    intro type
    cases type <;> rfl
  have hle : ∀ type : ObsType, type.code ≤ ObsType.capacityState.code := by
    intro type
    cases type <;> decide
  constructor
  · intro h
    rw [ObsType.ofCode?, Option.ite_none_right_eq_some, Option.some.injEq] at h
    obtain ⟨hrange, rfl⟩ := h
    refine UInt16.toNat_inj.mp (hcast _ ?_)
    exact Nat.lt_succ_of_le (UInt16.le_iff_toNat_le.mp hrange)
  · rintro rfl
    rw [ObsType.ofCode?, if_pos (hle type), hback]

theorem reads_type : Reads input readType
    (Spelled (fun _ => True) (fun type : ObsType => bytes 2 type.code.toNat) id) := by
  refine (reads_u16.lift.bind fun t => (?_ : Reads input _ fun bs type =>
    bs = [] ∧ type.code = t)).congr fun bs type => ?_
  · cases h : ObsType.ofCode? t with
    | none =>
      refine ⟨fun hrun => absurd hrun not_runs_throw, ?_⟩
      rintro s bs rest type - ⟨-, htype⟩
      rw [ObsType.ofCode?_eq_some.mpr htype] at h
      cases h
    | some type =>
      refine (Reads.pure type).congr fun bs type' => and_congr_right fun _ => ?_
      rw [← ObsType.ofCode?_eq_some, h, Option.some.injEq, eq_comm]
  · constructor
    · rintro ⟨t, -, _, rfl, rfl, rfl⟩
      exact ⟨type, trivial, List.append_nil _, rfl⟩
    · rintro ⟨_, -, rfl, rfl⟩
      exact ⟨type.code, trivial, [], (List.append_nil _).symm, rfl, rfl⟩

theorem reads_timestamp (present : Bool) : Reads input (readTimestamp present)
    (Spelled (fun v => (present = true → True) ∧ (present = false → v = 0))
      (fun v : UInt64 => if present then bytes 8 v.toNat else []) id) :=
  reads_u64.ite_pure present 0

theorem reads_health (present : Bool) : Reads input (readHealth present)
    (Spelled (fun h => (present = true → True) ∧ (present = false → h = 0))
      (fun h : UInt8 => if present then [h] else []) SourceHealth.ofCode) :=
  (reads_u8.bind_pure SourceHealth.ofCode).ite_pure present 0

theorem reads_confidence (present : Bool) : Reads input (readConfidence present)
    (Spelled (fun v => (present = true → True) ∧ (present = false → v = ⟨0⟩))
      (fun v : F32 => if present then bytes 4 v.bits.toNat else []) id) :=
  reads_f32.ite_pure present ⟨0⟩

/-- The envelope as it is spelled. -/
structure WireEnvelope where
  id : Id128
  type : ObsType
  source : Id128
  worker : Id128
  boot : Id128
  srcGen : UInt64
  obsGen : UInt64
  epoch : UInt64
  seq : UInt64
  clockDomain : Str

namespace WireEnvelope

/-- The parts in the order of the wire. -/
def spell (w : WireEnvelope) : Bytes :=
  [w.id.toBytes, bytes 2 w.type.code.toNat, w.source.toBytes, w.worker.toBytes, w.boot.toBytes,
    bytes 8 w.srcGen.toNat, bytes 8 w.obsGen.toNat, bytes 8 w.epoch.toNat, bytes 8 w.seq.toNat,
    prefixed w.clockDomain].flatten

def observation (w : WireEnvelope) : Observation :=
  { id := ⟨w.id⟩, type := w.type, source := ⟨w.source⟩, worker := ⟨w.worker⟩, boot := ⟨w.boot⟩,
    srcGen := w.srcGen, obsGen := w.obsGen, epoch := w.epoch, seq := w.seq,
    clockDomain := w.clockDomain }

theorem reads : Reads input readEnvelope
    (Spelled (fun w : WireEnvelope => w.clockDomain.length < 2 ^ 32) spell observation) := by
  refine (reads_id.lift.bind fun id => reads_type.bind fun type => reads_id.lift.bind fun source =>
    reads_id.lift.bind fun worker => reads_id.lift.bind fun boot =>
    reads_u64.lift.bind fun srcGen => reads_u64.lift.bind fun obsGen =>
    reads_u64.lift.bind fun epoch => reads_u64.lift.bind fun seq =>
    reads_prefixed.lift.bind_pure _).congr fun bs o => ?_
  constructor
  · rintro ⟨id, -, _, rfl, type, -, _, rfl, source, -, _, rfl, worker, -, _, rfl, boot, -, _, rfl,
      srcGen, -, _, rfl, obsGen, -, _, rfl, epoch, -, _, rfl, seq, -, _, rfl, clockDomain, hclock,
      rfl, rfl⟩
    exact ⟨⟨id, type, source, worker, boot, srcGen, obsGen, epoch, seq, clockDomain⟩, hclock,
      by simp [spell], rfl⟩
  · rintro ⟨w, hw, rfl, rfl⟩
    exact ⟨w.id, trivial, _, rfl, w.type, trivial, _, rfl, w.source, trivial, _, rfl,
      w.worker, trivial, _, rfl, w.boot, trivial, _, rfl, w.srcGen, trivial, _, rfl,
      w.obsGen, trivial, _, rfl, w.epoch, trivial, _, rfl, w.seq, trivial, _, rfl,
      w.clockDomain, hw, List.append_nil _, rfl⟩

end WireEnvelope

/-- The optional parts and the provenance as they are spelled. -/
structure WireSections where
  pres : UInt8
  obsTs : UInt64
  recvTs : UInt64
  health : UInt8
  confidence : F32
  prov : UInt8

namespace WireSections

def spell (w : WireSections) : Bytes :=
  [[w.pres], if hasPart w.pres 0 then bytes 8 w.obsTs.toNat else [],
    if hasPart w.pres 1 then bytes 8 w.recvTs.toNat else [],
    if hasPart w.pres 2 then [w.health] else [],
    if hasPart w.pres 3 then bytes 4 w.confidence.bits.toNat else [], [w.prov]].flatten

/-- Absent parts hold zero. -/
structure Valid (w : WireSections) : Prop where
  obsTs : hasPart w.pres 0 = false → w.obsTs = 0
  recvTs : hasPart w.pres 1 = false → w.recvTs = 0
  health : hasPart w.pres 2 = false → w.health = 0
  confidence : hasPart w.pres 3 = false → w.confidence = ⟨0⟩

/-- The parts that the reader puts into an observation. -/
def addTo (o : Observation) (w : WireSections) : Observation :=
  { o with
    hasObsTs := hasPart w.pres 0, obsTs := w.obsTs, hasRecvTs := hasPart w.pres 1,
    recvTs := w.recvTs, hasHealth := hasPart w.pres 2, health := SourceHealth.ofCode w.health,
    hasConfidence := hasPart w.pres 3, confidence := w.confidence,
    provenance := Provenance.ofCode w.prov }

theorem reads (o : Observation) :
    Reads input (readSections o) (Spelled Valid spell (addTo o)) := by
  refine (reads_u8.bind fun pres => (reads_timestamp _).bind fun obsTs =>
    (reads_timestamp _).bind fun recvTs => (reads_health _).bind fun health =>
    (reads_confidence _).bind fun confidence => reads_u8.bind_pure _).congr fun bs o' => ?_
  constructor
  · rintro ⟨pres, -, _, rfl, obsTs, ⟨-, hobs⟩, _, rfl, recvTs, ⟨-, hrecv⟩, _, rfl, health,
      ⟨-, hhealth⟩, _, rfl, confidence, ⟨-, hconf⟩, _, rfl, prov, -, rfl, rfl⟩
    exact ⟨⟨pres, obsTs, recvTs, health, confidence, prov⟩, ⟨hobs, hrecv, hhealth, hconf⟩,
      by simp [spell], rfl⟩
  · rintro ⟨w, hw, rfl, rfl⟩
    exact ⟨w.pres, trivial, _, rfl, w.obsTs, ⟨fun _ => trivial, hw.obsTs⟩, _, rfl,
      w.recvTs, ⟨fun _ => trivial, hw.recvTs⟩, _, rfl, w.health, ⟨fun _ => trivial, hw.health⟩, _,
      rfl, w.confidence, ⟨fun _ => trivial, hw.confidence⟩, _, rfl, w.prov, trivial,
      List.append_nil _, rfl⟩

end WireSections

/-- An observation as it is spelled. -/
structure WireObservation where
  envelope : WireEnvelope
  sections : WireSections
  fields : List (Str × WireValue)

namespace WireObservation

def spell (w : WireObservation) : Bytes :=
  [w.envelope.spell, w.sections.spell, bytes 4 w.fields.length,
    w.fields.flatMap spellField].flatten

/-- The forms that the reader accepts. -/
structure Valid (w : WireObservation) : Prop where
  clockDomain : w.envelope.clockDomain.length < 2 ^ 32
  sections : w.sections.Valid
  count : w.fields.length ≤ 16777216
  fields : ∀ p ∈ w.fields, ValidField p

/-- The observation that the reader returns. -/
def observation (w : WireObservation) : Observation :=
  { w.sections.addTo w.envelope.observation with
    fields := OrderedMap.emplaceAll ∅ (w.fields.map fun p => (p.1, p.2.value)) }

/-- The decoder reads the wire forms, each as its observation. -/
theorem reads : Reads input readObservation (Spelled Valid spell observation) := by
  refine (WireEnvelope.reads.bind fun o => (WireSections.reads o).lift.bind fun o =>
    reads_count.lift.bind fun fcount => (reads_requireOk _).bind fun _ =>
    (Reads.throw_if _ _).bind fun _ => (reads_fields fcount.toNat ∅).bind_pure _).congr
    fun bs o => ?_
  constructor
  · rintro ⟨envelope, hclock, _, rfl, sections, hsections, _, rfl, n, hn, _, rfl, -, -, _, rfl, -,
      hcount, _, rfl, fields, ⟨hlen, hfields⟩, rfl, rfl⟩
    have hto : (UInt64.ofNat n).toNat = n := UInt64.toNat_ofNat_of_lt' (hn.trans (by decide))
    rw [hto] at hlen hcount
    subst hlen
    refine ⟨⟨envelope, sections, fields⟩, ⟨hclock, hsections, ?_, hfields⟩, by simp [spell], rfl⟩
    simpa using hcount
  · rintro ⟨w, hw, rfl, rfl⟩
    have hto : (UInt64.ofNat w.fields.length).toNat = w.fields.length :=
      UInt64.toNat_ofNat_of_lt' (hw.count.trans_lt (by decide))
    refine ⟨w.envelope, hw.clockDomain, _, rfl, w.sections, hw.sections, _, rfl, w.fields.length,
      hw.count.trans_lt (by decide), _, rfl, (), trivial, _, rfl, (), ?_, _, rfl, w.fields,
      ⟨hto.symm, hw.fields⟩, List.append_nil _, rfl⟩
    rw [hto]
    simpa using hw.count

end WireObservation
end ServingObservatory
