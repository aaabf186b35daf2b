import ServingObservatory.Coordinator
import ServingObservatory.Decoding
import ServingObservatory.Sha256

/-!
# Archives in memory

An archive is a snapshot of the coordinator together with the digests of a
replay of its accepted evidence. The replay is a function of that evidence alone
and stays a parameter here; it may throw.
-/
namespace ServingObservatory

/-- A replay of evidence, and where its result keeps the four digests. -/
structure Replayer (ρ : Type) where
  replay : List Observation → Except Str ρ
  evidenceDigest : ρ → Digest
  traceDigest : ρ → Digest
  explanationDigest : ρ → Digest
  aggregateDigest : ρ → Digest

structure ArchiveContents (ρ : Type) where
  epoch : UInt64 := 1
  registry : List SourceAuthority := []
  accepted : List Observation := []
  stale : List (Observation × Str) := []
  createdNs : UInt64 := 0
  storedEvidenceDigest : Digest
  storedTraceDigest : Digest
  storedExplanationDigest : Digest
  storedAggregateDigest : Digest
  verifiedReplay : ρ
  replayMatch : Bool := false

/-- The authorities in increasing key order. -/
def Coordinator.registrySnapshot (c : Coordinator) : List SourceAuthority :=
  c.registry.byKey.toList.map Prod.snd

variable {ρ : Type}

def buildArchive (R : Replayer ρ) (c : Coordinator) : Except Str (ArchiveContents ρ) := do
  let accepted := c.allAccepted
  let rp ← R.replay accepted
  return {
      epoch := c.epoch
      registry := c.registrySnapshot
      accepted := accepted
      stale := c.stale
      createdNs := 0
      storedEvidenceDigest := R.evidenceDigest rp
      storedTraceDigest := R.traceDigest rp
      storedExplanationDigest := R.explanationDigest rp
      storedAggregateDigest := R.aggregateDigest rp
      verifiedReplay := rp
      replayMatch := true }

/-- The archive from its parts and a replay of the accepted evidence. -/
def ArchiveContents.ofParts (R : Replayer ρ) (epoch : UInt64) (registry : List SourceAuthority)
    (stale : List (Observation × Str)) (accepted : List Observation) (rp : ρ) :
    ArchiveContents ρ :=
  { epoch := epoch, registry := registry, accepted := accepted, stale := stale, createdNs := 0,
    storedEvidenceDigest := R.evidenceDigest rp, storedTraceDigest := R.traceDigest rp,
    storedExplanationDigest := R.explanationDigest rp,
    storedAggregateDigest := R.aggregateDigest rp, verifiedReplay := rp, replayMatch := true }

theorem buildArchive_eq_ok_iff (R : Replayer ρ) (c : Coordinator) (a : ArchiveContents ρ) :
    buildArchive R c = .ok a ↔ ∃ rp, R.replay c.allAccepted = .ok rp ∧
      ArchiveContents.ofParts R c.epoch c.registrySnapshot c.stale c.allAccepted rp = a := by
  refine Decoding.bind_eq_ok.trans (exists_congr fun rp => and_congr_right fun _ => ?_)
  exact ⟨Except.ok.inj, congrArg Except.ok⟩

/-- The four stored digests. -/
def ArchiveContents.digests (a : ArchiveContents ρ) : List Digest :=
  [a.storedEvidenceDigest, a.storedTraceDigest, a.storedExplanationDigest,
    a.storedAggregateDigest]

/-- The archive of equal evidence has equal digests. -/
theorem digests_buildArchive_congr (R : Replayer ρ) {c d : Coordinator}
    (h : c.accepted = d.accepted) : (buildArchive R c).map ArchiveContents.digests =
      (buildArchive R d).map ArchiveContents.digests := by
  have hall : c.allAccepted = d.allAccepted := by rw [Coordinator.allAccepted, h]; rfl
  simp only [buildArchive, hall]
  cases R.replay d.allAccepted with
  | error e => rfl
  | ok rp => rfl

end ServingObservatory
