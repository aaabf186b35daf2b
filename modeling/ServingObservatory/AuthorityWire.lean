import ServingObservatory.ArchiveFile
import ServingObservatory.EvidenceDigest

/-!
# The wire form of authorities

A record of the registry is written as its parts in order, with the timestamp only
when there is one. The reader forgets the bytes of true flags, unknown health codes
and the upper half of the restart count.
-/
namespace ServingObservatory
open BigEndian Decoding BinaryWriter BinaryReader

/-- An authority as it is spelled. -/
structure WireAuthority where
  source : Id128
  worker : Id128
  epoch : UInt64
  srcGen : UInt64
  obsGen : UInt64
  boot : Id128
  lastSeq : UInt64
  hasLast : UInt8
  lastObsTs : UInt64
  health : UInt8
  registered : UInt8
  restartCount : Int64

namespace WireAuthority

/-- The parts in the order of the wire. -/
def spell (w : WireAuthority) : Bytes :=
  [w.source.toBytes, w.worker.toBytes, bytes 8 w.epoch.toNat, bytes 8 w.srcGen.toNat,
    bytes 8 w.obsGen.toNat, w.boot.toBytes, bytes 8 w.lastSeq.toNat, [w.hasLast],
    if w.hasLast != 0 then bytes 8 w.lastObsTs.toNat else [], [w.health], [w.registered],
    bytes 8 w.restartCount.toUInt64.toNat].flatten

/-- An absent timestamp holds zero. -/
def Valid (w : WireAuthority) : Prop := (w.hasLast != 0) = false → w.lastObsTs = 0

/-- The record that the reader returns. -/
def authority (w : WireAuthority) : SourceAuthority :=
  { source := ⟨w.source⟩, worker := ⟨w.worker⟩, epoch := w.epoch, srcGen := w.srcGen,
    obsGen := w.obsGen, boot := ⟨w.boot⟩, lastSeq := w.lastSeq, lastObsTs := w.lastObsTs,
    hasLastTs := w.hasLast != 0, health := SourceHealth.ofCode w.health,
    registered := w.registered != 0, restartCount := w.restartCount.toInt32 }

/-- The form that the writer gives a record. -/
def ofAuthority (a : SourceAuthority) : WireAuthority :=
  { source := a.source.raw, worker := a.worker.raw, epoch := a.epoch, srcGen := a.srcGen,
    obsGen := a.obsGen, boot := a.boot.raw, lastSeq := a.lastSeq,
    hasLast := if a.hasLastTs then 1 else 0,
    lastObsTs := if a.hasLastTs then a.lastObsTs else 0, health := a.health.code,
    registered := if a.registered then 1 else 0, restartCount := a.restartCount.toInt64 }

theorem reads : Reads input readAuthority (Spelled Valid spell authority) := by
  refine (reads_id.lift.bind fun source => reads_id.lift.bind fun worker =>
    reads_u64.lift.bind fun epoch => reads_u64.lift.bind fun srcGen =>
    reads_u64.lift.bind fun obsGen => reads_id.lift.bind fun boot =>
    reads_u64.lift.bind fun lastSeq => reads_u8.lift.bind fun hasLast =>
    (reads_timestamp (hasLast != 0)).lift.bind fun lastObsTs => reads_u8.lift.bind fun h =>
    reads_u8.lift.bind fun registered => reads_i64.lift.bind fun restartCount =>
    (reads_requireOk _).bind_pure _).congr fun bs a => ?_
  constructor
  · rintro ⟨source, -, _, rfl, worker, -, _, rfl, epoch, -, _, rfl, srcGen, -, _, rfl, obsGen, -, _,
      rfl, boot, -, _, rfl, lastSeq, -, _, rfl, hasLast, -, _, rfl, lastObsTs, ⟨-, hlast⟩, _, rfl,
      h, -, _, rfl, registered, -, _, rfl, restartCount, -, _, rfl, -, -, rfl, rfl⟩
    exact ⟨⟨source, worker, epoch, srcGen, obsGen, boot, lastSeq, hasLast, lastObsTs, h, registered,
      restartCount⟩, hlast, by simp [spell], rfl⟩
  · rintro ⟨w, hw, rfl, rfl⟩
    exact ⟨w.source, trivial, _, rfl, w.worker, trivial, _, rfl, w.epoch, trivial, _, rfl,
      w.srcGen, trivial, _, rfl, w.obsGen, trivial, _, rfl, w.boot, trivial, _, rfl,
      w.lastSeq, trivial, _, rfl, w.hasLast, trivial, _, rfl, w.lastObsTs,
      ⟨fun _ => trivial, hw⟩, _, rfl, w.health, trivial, _, rfl, w.registered, trivial, _, rfl,
      w.restartCount, trivial, _, rfl, (), trivial, rfl, rfl⟩

theorem code : PrefixCode Valid spell := by
  intro w w' r r' hw hw' h
  simp only [spell, List.flatten_cons, List.flatten_nil, List.append_nil, List.append_assoc] at h
  obtain ⟨hsource, h⟩ := prefixCode_of_reads reads_id trivial trivial h
  obtain ⟨hworker, h⟩ := prefixCode_of_reads reads_id trivial trivial h
  obtain ⟨hepoch, h⟩ := prefixCode_of_reads reads_u64 trivial trivial h
  obtain ⟨hsrc, h⟩ := prefixCode_of_reads reads_u64 trivial trivial h
  obtain ⟨hobs, h⟩ := prefixCode_of_reads reads_u64 trivial trivial h
  obtain ⟨hboot, h⟩ := prefixCode_of_reads reads_id trivial trivial h
  obtain ⟨hseq, h⟩ := prefixCode_of_reads reads_u64 trivial trivial h
  obtain ⟨hflag, h⟩ := prefixCode_of_reads reads_u8 trivial trivial h
  rw [← hflag] at h
  obtain ⟨hlast, h⟩ := prefixCode_of_reads (reads_timestamp (w.hasLast != 0))
    ⟨fun _ => trivial, hw⟩ ⟨fun _ => trivial, fun hz => hw' (hflag ▸ hz)⟩ h
  obtain ⟨hhealth, h⟩ := prefixCode_of_reads reads_u8 trivial trivial h
  obtain ⟨hreg, h⟩ := prefixCode_of_reads reads_u8 trivial trivial h
  obtain ⟨hrestart, hr⟩ := prefixCode_of_reads reads_i64 trivial trivial h
  refine ⟨?_, hr⟩
  cases w
  cases w'
  simp only at hsource hworker hepoch hsrc hobs hboot hseq hflag hlast hhealth hreg hrestart
  subst hsource hworker hepoch hsrc hobs hboot hseq hflag hlast hhealth hreg hrestart
  rfl

theorem hasLast_ofAuthority (a : SourceAuthority) :
    ((ofAuthority a).hasLast != 0) = a.hasLastTs := by
  cases h : a.hasLastTs <;> simp [ofAuthority, h]

theorem valid_ofAuthority (a : SourceAuthority) : (ofAuthority a).Valid := by
  intro h
  rw [hasLast_ofAuthority] at h
  simp [ofAuthority, h]

/-- A record whose absent timestamp is zero is read back. -/
theorem authority_ofAuthority {a : SourceAuthority} (h : a.hasLastTs = false → a.lastObsTs = 0) :
    (ofAuthority a).authority = a := by
  have hts : (if a.hasLastTs then a.lastObsTs else 0) = a.lastObsTs := by
    cases hflag : a.hasLastTs with
    | true => rfl
    | false => exact (h hflag).symm
  have hreg : ((if a.registered then 1 else 0 : UInt8) != 0) = a.registered := by
    cases a.registered <;> rfl
  have hrestart : a.restartCount.toInt64.toInt32 = a.restartCount :=
    Int32.toInt32_toInt64 a.restartCount
  have hflag := hasLast_ofAuthority a
  simp only [authority, hflag]
  simp only [ofAuthority, hts, hreg, hrestart, SourceHealth.ofCode_code]

theorem writes_authority (a : SourceAuthority) :
    Writes (writeAuthority a) (ofAuthority a).spell := by
  have hw : Writes (writeAuthority a) _ :=
    (writes_append a.source.raw.toBytes).bind <| (writes_append a.worker.raw.toBytes).bind <|
    (writes_u64 a.epoch).bind <| (writes_u64 a.srcGen).bind <| (writes_u64 a.obsGen).bind <|
    (writes_append a.boot.raw.toBytes).bind <| (writes_u64 a.lastSeq).bind <|
    (writes_u8 (if a.hasLastTs then 1 else 0)).bind <|
    ((writes_u64 a.lastObsTs).writeIf a.hasLastTs).bind <| (writes_u8 a.health.code).bind <|
    (writes_u8 (if a.registered then 1 else 0)).bind <| writes_u64 a.restartCount.toInt64.toUInt64
  have hts : (if ((ofAuthority a).hasLast != 0) = true
      then bytes 8 (ofAuthority a).lastObsTs.toNat else []) =
        if a.hasLastTs then bytes 8 a.lastObsTs.toNat else [] := by
    rw [hasLast_ofAuthority]
    cases h : a.hasLastTs <;> simp [ofAuthority, h]
  rw [spell, hts]
  simpa [ofAuthority] using hw

theorem length_spell (a : SourceAuthority) :
    (ofAuthority a).spell.length = 91 + if a.hasLastTs then 8 else 0 := by
  have hflag := hasLast_ofAuthority a
  simp only [spell, hflag]
  cases a.hasLastTs <;> simp

end WireAuthority
end ServingObservatory
