import ServingObservatory.EvidenceDigest

/-!
# When replay returns

Replay throws only where a length prefix of 32 bits is too short: for an observation,
for the canonical text of a trace or for that of an explanation. Otherwise it returns
one result, whose digests cover the length-prefixed parts.
-/
namespace ServingObservatory
open Std BinaryWriter Decoding Sorting

/-- A list of texts, each behind its length. -/
theorem writtenBytes_texts_eq_ok_iff (text : RequestTrace → Str) (traces : List RequestTrace)
    (b : Bytes) : writtenBytes (traces.forM fun t => writeBytes (text t)) = .ok b ↔
      (∀ t ∈ traces, (text t).length < 2 ^ 32) ∧ b = traces.flatMap fun t => prefixed (text t) :=
  writtenBytes_eq_ok_iff (Emits.forM (fun t => emits_bytes (text t)) traces) b

variable [Platform]

/-- The texts of a trace that are hashed behind their lengths. -/
structure RequestTrace.Fits (t : RequestTrace) : Prop where
  trace : (canonicalTrace t).length < 2 ^ 32
  explanation : (canonicalExplanation t).length < 2 ^ 32

/-- Every part fits behind its length. -/
structure Replayable (l : List Observation) : Prop where
  evidence : ∀ o ∈ l, o.FitsEntry
  traces : ∀ t ∈ tracesOf l, t.Fits

/-- The bytes that the evidence digest covers. -/
def evidenceForm (l : List Observation) : Bytes :=
  BigEndian.bytes 8 (UInt64.ofNat l.length).toNat ++
    ((sorter.sort idLt l).map WireObservation.ofObservation).flatMap WireObservation.entry

/-- The result from the evidence form and the traces. -/
def replayOf (obsCount : UInt64) (evidence : Bytes) (traces : List RequestTrace) : ReplayResult :=
  let requestTraceCount := UInt64.ofNat traces.length
  let metrics := tailMetrics (traces.map totalLatencyOf)
  let g := traces.foldl Aggregate.addTrace {}
  { obsCount := obsCount
    requestTraceCount := requestTraceCount
    evidenceDigest := Sha256.hash evidence
    traceDigest := Sha256.hash (traces.flatMap fun t => prefixed (canonicalTrace t))
    explanationDigest := Sha256.hash (traces.flatMap fun t => prefixed (canonicalExplanation t))
    aggregateDigest :=
      Sha256.hash (aggregateJson obsCount requestTraceCount metrics g).toCanonical
    traces := traces
    ungroupedMetrics := metrics }

theorem replay_eq_ok_iff (l : List Observation) (r : ReplayResult) : replay l = .ok r ↔
    Replayable l ∧ r = replayOf (UInt64.ofNat l.length) (evidenceForm l) (tracesOf l) := by
  simp only [replay, evidenceDigestOf, replayTraces, bind_eq_ok, map_eq_ok,
    evidenceBytes_eq_ok_iff, writtenBytes_texts_eq_ok_iff]
  constructor
  · rintro ⟨_, ⟨_, ⟨hfits, rfl⟩, rfl⟩, _, ⟨htrace, rfl⟩, _, ⟨hexpl, rfl⟩, h⟩
    exact ⟨⟨hfits, fun t ht => ⟨htrace t ht, hexpl t ht⟩⟩, (Except.ok.inj h).symm⟩
  · rintro ⟨⟨hfits, htraces⟩, rfl⟩
    exact ⟨_, ⟨_, ⟨hfits, rfl⟩, rfl⟩, _, ⟨fun t ht => (htraces t ht).trace, rfl⟩,
      _, ⟨fun t ht => (htraces t ht).explanation, rfl⟩, rfl⟩

/-- Replay returns exactly where everything fits. -/
theorem exists_replay_iff (l : List Observation) : (∃ r, replay l = .ok r) ↔ Replayable l := by
  simp only [replay_eq_ok_iff, exists_and_left, exists_eq, and_true]

/-- Evidence without request identities has no traces. -/
theorem replayable_of_no_request {l : List Observation} (hfits : ∀ o ∈ l, o.FitsEntry)
    (hnull : ∀ o ∈ l, groupKey o = none) : Replayable l := by
  refine ⟨hfits, ?_⟩
  have hrequests : requestsOf l = [] := by
    refine List.eq_nil_iff_forall_not_mem.mpr fun rid hrid => ?_
    obtain ⟨o, ho, hkey⟩ := (mem_groupByRequest l rid).mp (ExtTreeMap.mem_keys.mp hrid)
    rw [hnull o ho] at hkey
    cases hkey
  simp [tracesOf_eq, hrequests]

theorem exists_replay_singleton {o : Observation} (hfits : o.FitsEntry)
    (hnull : groupKey o = none) : ∃ r, replay [o] = .ok r :=
  (exists_replay_iff [o]).mpr
    (replayable_of_no_request (by simpa using hfits) (by simpa using hnull))

end ServingObservatory
