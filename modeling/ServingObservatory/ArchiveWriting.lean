import ServingObservatory.ArchiveLoading
import ServingObservatory.Recovery

/-!
# What is written for an archive

An archive is written when its counts and lengths fit in 32 bits, and its body is then
the spelling of one form. The size of the body is a sum over its lists.
-/
namespace ServingObservatory
open Std BigEndian Decoding BinaryWriter BinaryReader

variable {ρ : Type}

namespace ArchiveContents

/-- The 128 bytes of the stored digests. -/
def block (a : ArchiveContents ρ) : Bytes := a.digests.flatMap Vector.toList

theorem length_block (a : ArchiveContents ρ) : a.block.length = 128 := by
  simp [block, digests]

/-- The counts and the lengths that the writer demands. -/
structure Writable (a : ArchiveContents ρ) : Prop where
  registry_count : a.registry.length < 2 ^ 32
  accepted_count : a.accepted.length < 2 ^ 32
  accepted : ∀ o ∈ a.accepted, o.FitsEntry
  stale_count : a.stale.length < 2 ^ 32
  stale : ∀ p ∈ a.stale, p.1.FitsEntry ∧ p.2.length < 2 ^ 32

end ArchiveContents

/-- The form that the writer gives an archive. -/
def WireArchive.ofContents (a : ArchiveContents ρ) : WireArchive where
  reserved := 0
  epoch := a.epoch
  createdNs := a.createdNs
  registry := a.registry.map WireAuthority.ofAuthority
  accepted := a.accepted.map fun o => WireObservation.ofObservation o.recovered
  stale := a.stale.map fun p => (WireObservation.ofObservation p.1.recovered, p.2)
  block := a.block

theorem emits_staleEntry (p : Observation × Str) :
    Emits (writeStaleEntry p) (p.1.FitsEntry ∧ p.2.length < 2 ^ 32)
      (spellStale (WireObservation.ofObservation p.1.recovered, p.2)) := by
  rw [spellStale, WireObservation.entry_recovered]
  exact (emits_obsEntry p.1).bind (emits_str p.2)

theorem writtenBytes_digests (a : ArchiveContents ρ) (b : Bytes) :
    writtenBytes (a.digests.forM putDigest) = .ok b ↔ True ∧ b = a.block :=
  writtenBytes_eq_ok_iff (Writes.forM fun d _ => writes_bytes_forM d.toList).emits b

theorem emits_archiveBody (a : ArchiveContents ρ) :
    Emits (writeArchiveBody a) a.Writable (WireArchive.ofContents a).spell := by
  have hw : Emits (writeArchiveBody a) _ _ :=
    (writes_u32 kArchiveMagic).emits.bind <| (writes_u16 kArchiveVersion).emits.bind <|
    (writes_u8 0).emits.bind <| (writes_u64 a.epoch).emits.bind <|
    (writes_u64 a.createdNs).emits.bind <|
    (emits_checked (lit "count overflow") a.registry.length).bind <|
    (Writes.forM fun s _ => WireAuthority.writes_authority s).emits.bind <|
    (emits_checked (lit "count overflow") a.accepted.length).bind <|
    (Emits.forM emits_obsEntry a.accepted).bind <|
    (emits_checked (lit "count overflow") a.stale.length).bind <|
    (Emits.forM emits_staleEntry a.stale).bind <|
    emits_of_except (writtenBytes_digests a) (emits_bytes a.block)
  have hblock : a.block.length < 2 ^ 32 := by
    rw [a.length_block]
    decide
  have hiff : (True ∧ True ∧ True ∧ True ∧ True ∧ a.registry.length < 2 ^ 32 ∧ True ∧
      a.accepted.length < 2 ^ 32 ∧ (∀ o ∈ a.accepted, o.FitsEntry) ∧ a.stale.length < 2 ^ 32 ∧
      (∀ p ∈ a.stale, p.1.FitsEntry ∧ p.2.length < 2 ^ 32) ∧ True ∧ a.block.length < 2 ^ 32) ↔
        a.Writable := by
    constructor
    · rintro ⟨-, -, -, -, -, hreg, -, hacc, haccepted, hst, hstale, -⟩
      exact ⟨hreg, hacc, haccepted, hst, hstale⟩
    · rintro ⟨hreg, hacc, haccepted, hst, hstale⟩
      exact ⟨trivial, trivial, trivial, trivial, trivial, hreg, trivial, hacc, haccepted, hst,
        hstale, trivial, hblock⟩
  simpa [WireArchive.spell, WireArchive.ofContents, List.flatMap_map,
    WireObservation.entry_recovered] using hw.congr hiff

/-- An archive is written when its counts and lengths fit. -/
theorem archiveFile_eq_ok_iff (a : ArchiveContents ρ) (file : Bytes) :
    archiveFile a = .ok file ↔ a.Writable ∧ file = fileOf (WireArchive.ofContents a).spell := by
  have hfile : ∀ (body : Bytes) (b : Bytes), writtenBytes (do
      writeU32 (UInt32.ofNat body.length)
      body.forM writeU8
      (Sha256.hash body).toList.forM writeU8) = .ok b ↔ True ∧ b = fileOf body := by
    intro body b
    refine writtenBytes_eq_ok_iff (Writes.emits ?_) b
    exact (writes_u32 _).bind ((writes_bytes_forM body).bind (writes_bytes_forM _))
  have hbody := writtenBytes_eq_ok_iff (emits_archiveBody a)
  rw [archiveFile, bind_eq_ok]
  constructor
  · rintro ⟨body, hres, hwritten⟩
    obtain ⟨hw, rfl⟩ := (hbody body).mp hres
    exact ⟨hw, ((hfile _ file).mp hwritten).2⟩
  · rintro ⟨hw, rfl⟩
    exact ⟨_, (hbody _).mpr ⟨hw, rfl⟩, (hfile _ _).mpr ⟨trivial, rfl⟩⟩

/-! ## The size of a body -/

def SourceAuthority.encodedSize (a : SourceAuthority) : ℕ := 91 + if a.hasLastTs then 8 else 0

/-- A payload behind its length. -/
def Observation.entrySize (o : Observation) : ℕ := 4 + o.encodedSize

/-- The bytes of the header, of the counts and the digests, and of the three lists. -/
def ArchiveContents.bodySize (a : ArchiveContents ρ) : ℕ :=
  167 + (a.registry.map SourceAuthority.encodedSize).sum +
    (a.accepted.map Observation.entrySize).sum +
    (a.stale.map fun p => p.1.entrySize + (4 + p.2.length)).sum

theorem WireObservation.length_entry (o : Observation) :
    (ofObservation o.recovered).entry.length = o.entrySize := by
  rw [entry_recovered, entry, length_prefixed, length_spell, Observation.entrySize]

theorem WireArchive.length_spell (a : ArchiveContents ρ) :
    (ofContents a).spell.length = a.bodySize := by
  have hregistry : ((ofContents a).registry.flatMap WireAuthority.spell).length =
      (a.registry.map SourceAuthority.encodedSize).sum := by
    simp only [ofContents, List.flatMap_map, List.length_flatMap, WireAuthority.length_spell]
    rfl
  have haccepted : ((ofContents a).accepted.flatMap WireObservation.entry).length =
      (a.accepted.map Observation.entrySize).sum := by
    simp only [ofContents, List.flatMap_map, List.length_flatMap, WireObservation.length_entry]
  have hstale : ((ofContents a).stale.flatMap spellStale).length =
      (a.stale.map fun p => p.1.entrySize + (4 + p.2.length)).sum := by
    simp only [ofContents, List.flatMap_map, List.length_flatMap, spellStale, List.length_append,
      WireObservation.length_entry, length_prefixed]
  have hblock : (ofContents a).block.length = 128 := a.length_block
  simp only [spell, List.flatten_cons, List.flatten_nil, List.append_nil, List.length_append,
    length_bytes, List.length_cons, List.length_nil, hregistry, haccepted, hstale,
    length_prefixed, hblock, ArchiveContents.bodySize]
  omega

/-- What the writer writes for a body. -/
theorem length_archiveBody {a : ArchiveContents ρ} {body : Bytes}
    (h : writtenBytes (writeArchiveBody a) = .ok body) : body.length = a.bodySize := by
  obtain ⟨-, rfl⟩ := (writtenBytes_eq_ok_iff (emits_archiveBody a) body).mp h
  exact WireArchive.length_spell a

end ServingObservatory
