import ServingObservatory.BinaryCodec
import ServingObservatory.OrderedMap

/-!
# The observation codec

An observation is written as its envelope, a presence byte, the optional sections
that the byte announces, and the fields in key order, each value behind a tag.
-/
namespace ServingObservatory
open Std BinaryWriter BinaryReader

/-- The cast of a type code in range. -/
def ObsType.ofCode? (t : UInt16) : Option ObsType :=
  if t ≤ ObsType.capacityState.code then some (ObsType.ofNat t.toNat) else none

/-- Codes out of range read as unknown. -/
def SourceHealth.ofCode (h : UInt8) : SourceHealth :=
  if h ≤ SourceHealth.rejected.code then SourceHealth.ofNat h.toNat else .unknown

/-- Codes out of range read as unknown. -/
def Provenance.ofCode (p : UInt8) : Provenance :=
  if p ≤ Provenance.heuristic.code then Provenance.ofNat p.toNat else .unknown

def writeFv : FieldValue → BinaryWriter Unit
  | .null => writeU8 0
  | .bool v => do
    writeU8 1
    writeBool v
  | .i64 v => do
    writeU8 2
    writeI64 v
  | .u64 v => do
    writeU8 3
    writeU64 v
  | .f64 v => do
    writeU8 4
    writeF64 v
  | .str v => do
    writeU8 5
    writeStr v
  | .id v => do
    writeU8 6
    writeId v
  | .bytes v => do
    writeU8 7
    writeBytes v

/-- The value behind a tag. -/
def readTagged (tag : UInt8) : StateM BinaryReader FieldValue :=
  match tag.toNat with
  | 0 => return .null
  | 1 => return .bool (← readBool)
  | 2 => return .i64 (← readI64)
  | 3 => return .u64 (← rU64)
  | 4 => return .f64 (← readF64)
  | 5 => return .str (← readStr)
  | 6 => return .id (← readId)
  | 7 => return .bytes (← readBytes)
  | _ => failIf true (lit "invalid field-value tag " ++ decimal tag.toNat) .null

def readFv : StateM BinaryReader FieldValue := do
  let tag ← rU8
  unlessFailed .null (readTagged tag)

/-- `1u << i`, the presence bit of an optional part. -/
def presBit (i : UInt8) : UInt8 := 1 <<< i

def hasPart (pres i : UInt8) : Bool := pres &&& presBit i != 0

/-- The presence byte: one bit for each optional part. -/
def presence (o : Observation) : UInt8 :=
  let pres : UInt8 := 0
  let pres := if o.hasObsTs then pres ||| presBit 0 else pres
  let pres := if o.hasRecvTs then pres ||| presBit 1 else pres
  let pres := if o.hasHealth then pres ||| presBit 2 else pres
  if o.hasConfidence then pres ||| presBit 3 else pres

def writeEnvelope (o : Observation) : BinaryWriter Unit := do
  writeId o.id.raw
  writeU16 o.type.code
  writeId o.source.raw
  writeId o.worker.raw
  writeId o.boot.raw
  writeU64 o.srcGen
  writeU64 o.obsGen
  writeU64 o.epoch
  writeU64 o.seq
  writeStr o.clockDomain

def writeSections (o : Observation) : BinaryWriter Unit := do
  writeU8 (presence o)
  writeIf o.hasObsTs (writeU64 o.obsTs)
  writeIf o.hasRecvTs (writeU64 o.recvTs)
  writeIf o.hasHealth (writeU8 o.health.code)
  writeIf o.hasConfidence (writeF32 o.confidence)
  writeU8 o.provenance.code

def writeField (p : Str × FieldValue) : BinaryWriter Unit := do
  writeStr p.1
  writeFv p.2

def writeObservation (o : Observation) : BinaryWriter Unit := do
  writeEnvelope o
  writeSections o
  writeCount o.fields.size
  o.fields.toList.forM writeField

/-- Reads on a sticky reader, which `return Result::Err` ends early. -/
abbrev ObservationReader := ExceptT Str (StateM BinaryReader)

/-- The error of a reader that has failed, after a word on what was being read. -/
def requireOk (context : Str) : ObservationReader Unit :=
  ExceptT.mk fun r => (if r.failed then .error (context ++ r.err) else .ok (), r)

def readTimestamp (present : Bool) : StateM BinaryReader UInt64 := readIf present 0 rU64

def readHealth (present : Bool) : StateM BinaryReader SourceHealth :=
  readIf present .unknown do return SourceHealth.ofCode (← rU8)

def readConfidence (present : Bool) : StateM BinaryReader F32 := readIf present ⟨0⟩ readF32

def readType : ObservationReader ObsType := do
  let t ← rU16
  match ObsType.ofCode? t with
  | some type => return type
  | none => throw (lit "invalid observation type " ++ decimal t.toNat)

/-- A key that is already present keeps its value. -/
def readFields : ℕ → ExtTreeMap Str FieldValue → ObservationReader (ExtTreeMap Str FieldValue)
  | 0, fields => return fields
  | n + 1, fields => do
    let key ← readStr
    requireOk (lit "corrupt field key: ")
    let v ← readFv
    requireOk (lit "corrupt field value for '" ++ key ++ lit "': ")
    readFields n (fields.insertIfNew key v)

def checkCount (n : ℕ) : ObservationReader Unit :=
  if decide (n > 16777216) then throw (lit "field count overflow") else pure ()

/-- The envelope of the observation; everything else has its default. -/
def readEnvelope : ObservationReader Observation := do
  let id ← readId
  let type ← readType
  let source ← readId
  let worker ← readId
  let boot ← readId
  let srcGen ← rU64
  let obsGen ← rU64
  let epoch ← rU64
  let seq ← rU64
  let clockDomain ← readStr
  let o : Observation :=
    { id := ⟨id⟩, type := type, source := ⟨source⟩, worker := ⟨worker⟩, boot := ⟨boot⟩,
      srcGen := srcGen, obsGen := obsGen, epoch := epoch, seq := seq, clockDomain := clockDomain }
  return o

/-- The optional parts and the provenance. -/
def readSections (o : Observation) : StateM BinaryReader Observation := do
  let pres ← rU8
  let obsTs ← readTimestamp (hasPart pres 0)
  let recvTs ← readTimestamp (hasPart pres 1)
  let health ← readHealth (hasPart pres 2)
  let confidence ← readConfidence (hasPart pres 3)
  let prov ← rU8
  let o : Observation :=
    { o with
      hasObsTs := hasPart pres 0, obsTs := obsTs, hasRecvTs := hasPart pres 1, recvTs := recvTs,
      hasHealth := hasPart pres 2, health := health, hasConfidence := hasPart pres 3,
      confidence := confidence, provenance := Provenance.ofCode prov }
  return o

def readObservation : ObservationReader Observation := do
  let o ← readEnvelope
  let o ← readSections o
  let fcount ← readCount
  requireOk (lit "corrupt observation header: ")
  checkCount fcount.toNat
  let fields ← readFields fcount.toNat ∅
  return { o with fields := fields }

def encodeObservationPayload (o : Observation) : Except Str Bytes :=
  ((writeObservation o).run []).map Prod.snd

def readObservationPayload (b : Bytes) : Except Str Observation :=
  let (res, r) := readObservation.run.run { unread := b }
  match res with
  | .error e => .error e
  | .ok o =>
    if (requireEnd.run r).1 then .ok o
    else .error (lit "observation payload trailing garbage")

end ServingObservatory
