import ServingObservatory.Archive
import ServingObservatory.Replay

/-!
# Archive files

A file is the length of a body, the body and its SHA-256 digest. The body holds a
header, the registry, the accepted and the rejected evidence and the four replay
digests. A file is here the bytes that the file system returns for it.
-/
namespace ServingObservatory
open Std BinaryWriter BinaryReader Decoding

def kArchiveMagic : UInt32 := 0x534F4253

def kArchiveVersion : UInt16 := 1

/-- The replay of the repository. -/
def replayer [Platform] : Replayer ReplayResult where
  replay := replay
  evidenceDigest := ReplayResult.evidenceDigest
  traceDigest := ReplayResult.traceDigest
  explanationDigest := ReplayResult.explanationDigest
  aggregateDigest := ReplayResult.aggregateDigest

instance : Inhabited ReplayResult :=
  ⟨{ evidenceDigest := Vector.replicate 32 0, traceDigest := Vector.replicate 32 0,
     explanationDigest := Vector.replicate 32 0, aggregateDigest := Vector.replicate 32 0 }⟩

def writeAuthority (a : SourceAuthority) : BinaryWriter Unit := do
  writeId a.source.raw
  writeId a.worker.raw
  writeU64 a.epoch
  writeU64 a.srcGen
  writeU64 a.obsGen
  writeId a.boot.raw
  writeU64 a.lastSeq
  writeU8 (if a.hasLastTs then 1 else 0)
  writeIf a.hasLastTs (writeU64 a.lastObsTs)
  writeU8 a.health.code
  writeU8 (if a.registered then 1 else 0)
  writeI64 a.restartCount.toInt64

/-- Every byte but zero is a true flag, and the restart count is cut to 32 bits. -/
def readAuthority : ObservationReader SourceAuthority := do
  let source ← readId
  let worker ← readId
  let epoch ← rU64
  let srcGen ← rU64
  let obsGen ← rU64
  let boot ← readId
  let lastSeq ← rU64
  let hasLast ← rU8
  let lastObsTs ← readTimestamp (hasLast != 0)
  let h ← rU8
  let registered ← rU8
  let restartCount ← readI64
  requireOk (lit "bad authority: ")
  let a : SourceAuthority :=
    { source := ⟨source⟩, worker := ⟨worker⟩, epoch := epoch, srcGen := srcGen, obsGen := obsGen,
      boot := ⟨boot⟩, lastSeq := lastSeq, lastObsTs := lastObsTs, hasLastTs := hasLast != 0,
      health := SourceHealth.ofCode h, registered := registered != 0,
      restartCount := restartCount.toInt32 }
  return a

def writeStaleEntry (p : Observation × Str) : BinaryWriter Unit := do
  writeObsEntry p.1
  writeStr p.2

def readObsEntry : ObservationReader Observation := do
  let b ← readBytes
  requireOk (lit "truncated observation entry: ")
  ExceptT.mk (pure (readObservationPayload b))

def readStaleEntry : ObservationReader (Observation × Str) := do
  let o ← readObsEntry
  let reason ← readStr
  (requireOk []).adapt fun _ => lit "truncated stale reason"
  return (o, reason)

/-- `return Result::Err` under a condition. -/
def rejectIf (c : Bool) (message : Str) : ObservationReader Unit :=
  if c then throw message else pure ()

def putDigest (d : Digest) : BinaryWriter Unit := d.toList.forM writeU8

/-- `src[off]` to `src[off + 31]`, where bytes that are missing read as zero. -/
def copy32 (src : Bytes) (off : ℕ) : Digest := Vector.ofFn fun i => src.getD (off + i) 0

def digestFromBytes (b : Bytes) : Digest := copy32 b 0

section Saving
variable {ρ : Type}

def writeArchiveBody (a : ArchiveContents ρ) : BinaryWriter Unit := do
  writeU32 kArchiveMagic
  writeU16 kArchiveVersion
  writeU8 0
  writeU64 a.epoch
  writeU64 a.createdNs
  writeCount a.registry.length
  a.registry.forM writeAuthority
  writeCount a.accepted.length
  a.accepted.forM writeObsEntry
  writeCount a.stale.length
  a.stale.forM writeStaleEntry
  let digestw ← (writtenBytes (a.digests.forM putDigest) : Except Str Bytes)
  writeBytes digestw

/-- The length of the body is cut to 32 bits. -/
def archiveFile (a : ArchiveContents ρ) : Except Str Bytes := do
  let bodyb ← writtenBytes (writeArchiveBody a)
  let contentDigest := Sha256.hash bodyb
  writtenBytes do
    writeU32 (UInt32.ofNat bodyb.length)
    bodyb.forM writeU8
    contentDigest.toList.forM writeU8

/-- The archive and the bytes of its file, unless an exception is thrown. -/
def saveArchive (R : Replayer ρ) (c : Coordinator) : Except Str (ArchiveContents ρ × Bytes) := do
  let a ← buildArchive R c
  let file ← archiveFile a
  return (a, file)

end Saving

/-- The body of a file, if the length and the digest around it are right. -/
def openArchive (all : Bytes) : Except Str Bytes :=
  let (bodyLen, r) := rU32.run { unread := all }
  if r.failed then .error (lit "truncated archive header")
  else if all.length ≠ 4 + bodyLen.toNat + 32 then
    .error (lit "archive size mismatch: " ++ decimal all.length ++ lit " != expected " ++
      decimal (4 + bodyLen + 32).toNat)
  else
    let (bodyb, r) := (readRaw bodyLen).run r
    if bodyb.length ≠ bodyLen.toNat then .error (lit "truncated archive body")
    else
      let (storedHash, r) := (readRaw 32).run r
      if storedHash.length ≠ 32 then .error (lit "truncated archive digest")
      else if !(requireEnd.run r).1 then .error (lit "trailing garbage after archive")
      else if Sha256.hash bodyb ≠ digestFromBytes storedHash then
        .error (lit "archive checksum mismatch")
      else .ok bodyb

/-- The sections of a body, with the digests still in one block. -/
structure ArchiveSections where
  epoch : UInt64
  createdNs : UInt64
  registry : List SourceAuthority
  accepted : List Observation
  stale : List (Observation × Str)
  dbytes : Bytes

/-- The accepted observations that have been read, and their identities. -/
structure AcceptedSoFar where
  accepted : List Observation := []
  seen : ExtTreeSet ObservationId := ∅

def AcceptedSoFar.push (t : AcceptedSoFar) (o : Observation) : AcceptedSoFar :=
  ⟨t.accepted ++ [o], t.seen.insert o.id⟩

def readAccepted (t : AcceptedSoFar) : ObservationReader Observation := do
  let o ← readObsEntry
  rejectIf (t.seen.contains o.id) (lit "duplicate observation id in archive")
  return o

def readRegistered : ObservationReader SourceAuthority :=
  readAuthority.adapt (lit "bad authority in archive: " ++ ·)

/-- A word that must have one value. -/
def readExpected {α : Type} [BEq α] (m : StateM BinaryReader α) (expected : α)
    (message : α → Str) : ObservationReader Unit := do
  let v ← m
  rejectIf (v != expected) (message v)

/-- A count with a limit, and the items that it announces. -/
def readCounted {α : Type} (limit : UInt64) (message : Str) (items : ℕ → ObservationReader α) :
    ObservationReader α := do
  let n ← readCount
  rejectIf (n > limit) message
  items n.toNat

def readSectionsOf : ObservationReader ArchiveSections := do
  readExpected rU32 kArchiveMagic fun _ => lit "bad archive magic"
  readExpected rU16 kArchiveVersion fun ver =>
    lit "unsupported archive version " ++ decimal ver.toNat
  let _ ← rU8
  let epoch ← rU64
  let createdNs ← rU64
  let registry ← readCounted 1000000 (lit "registry count overflow") fun n =>
    readEach (fun _ => readRegistered) (fun l a => l ++ [a]) n []
  let t ← readCounted 1000000000 (lit "observation count overflow") fun n =>
    readEach readAccepted AcceptedSoFar.push n {}
  let stale ← readCounted 100000000 (lit "stale count overflow") fun n =>
    readEach (fun _ => readStaleEntry) (fun l p => l ++ [p]) n []
  let dbytes ← readBytes
  let s : ArchiveSections :=
    { epoch := epoch, createdNs := createdNs, registry := registry, accepted := t.accepted,
      stale := stale, dbytes := dbytes }
  return s

def readArchiveBody (bodyb : Bytes) : Except Str ArchiveSections :=
  let (res, r) := readSectionsOf.run.run { unread := bodyb }
  match res with
  | .error e => .error e
  | .ok s =>
    if !(requireEnd.run r).1 then .error (lit "trailing garbage in archive body")
    else if s.dbytes.length ≠ 128 then .error (lit "bad stored digest block")
    else .ok s

/-- An error result, or an exception of the replay. -/
inductive LoadFailure
  | err (message : Str)
  | exception (message : Str)

/-- The archive with a replay, and whether that has the stored digests. -/
def ArchiveContents.verified {ρ : Type} (R : Replayer ρ) (a : ArchiveContents ρ) (rp : ρ) :
    ArchiveContents ρ :=
  { a with
    verifiedReplay := rp
    replayMatch := R.evidenceDigest rp == a.storedEvidenceDigest &&
      R.traceDigest rp == a.storedTraceDigest &&
      R.explanationDigest rp == a.storedExplanationDigest &&
      R.aggregateDigest rp == a.storedAggregateDigest }

section Loading
variable {ρ : Type} [Inhabited ρ]

/-- The archive before it is verified. -/
def ArchiveSections.contents (s : ArchiveSections) : ArchiveContents ρ :=
  { epoch := s.epoch, registry := s.registry, accepted := s.accepted, stale := s.stale,
    createdNs := s.createdNs, storedEvidenceDigest := copy32 s.dbytes 0,
    storedTraceDigest := copy32 s.dbytes 32, storedExplanationDigest := copy32 s.dbytes 64,
    storedAggregateDigest := copy32 s.dbytes 96, verifiedReplay := default, replayMatch := false }

def loadArchive (R : Replayer ρ) (all : Bytes) (verifyReplay : Bool) :
    Except LoadFailure (ArchiveContents ρ) := do
  let bodyb ← (openArchive all).mapError .err
  let s ← (readArchiveBody bodyb).mapError .err
  let a : ArchiveContents ρ := s.contents
  if verifyReplay then
    let rp ← (R.replay a.accepted).mapError .exception
    let a := a.verified R rp
    if !a.replayMatch then throw (.err (lit "replay digests do not match stored digests"))
    else return a
  else return a

end Loading
end ServingObservatory
