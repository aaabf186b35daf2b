import ServingObservatory.Attribution
import ServingObservatory.SignedDeltas

/-!
# Trace-to-trace comparison

Two traces side by side: total latencies, the phases that at least one of them spent time
in, and the counts of the events that tell them apart.
-/
namespace ServingObservatory
open SignedDeltas

structure TraceComparison where
  requestA : RequestId := {}
  requestB : RequestId := {}
  totalA : UInt64 := 0
  totalB : UInt64 := 0
  deltaTotal : Int64 := 0
  phaseDeltas : List (Str × Int64) := []
  retriesA : UInt64 := 0
  retriesB : UInt64 := 0
  kvHitsA : UInt64 := 0
  kvHitsB : UInt64 := 0
  kernelHitsA : UInt64 := 0
  kernelHitsB : UInt64 := 0
  specAcceptedA : UInt64 := 0
  specAcceptedB : UInt64 := 0
  bytesH2dA : UInt64 := 0
  bytesH2dB : UInt64 := 0
  workerRestartA : Bool := false
  workerRestartB : Bool := false
  coldModelA : Bool := false
  coldModelB : Bool := false

def phaseDur (t : RequestTrace) (p : Phase) : UInt64 :=
  if (t.getPhase p).present then (t.getPhase p).duration else 0

def countRetry (t : RequestTrace) : UInt64 := countObs t.evidence .retry

def countObsOf (t : RequestTrace) (ty : ObsType) : UInt64 := countObs t.evidence ty

/-- A model or an adapter that is reported as cold. -/
def anyCold (t : RequestTrace) : Bool :=
  t.evidence.any fun o => (o.type == .modelResidency || o.type == .adapterResidency) &&
    !o.boolField FieldKeys.isWarm true

/-- The phases that are compared, in the order of the report. -/
def comparedPhases : List Phase := [.queue, .batchWait, .dispatch, .transfer, .prefill,
  .firstToken, .decode, .speculation, .retry, .recovery]

/-- The delta of a phase, if one of the traces spent time in it. -/
def phaseDelta (a b : RequestTrace) (p : Phase) : Option (Str × Int64) :=
  if (phaseDur a p).toInt64 ≠ 0 ∨ (phaseDur b p).toInt64 ≠ 0 then
    some (p.name, delta (phaseDur a p) (phaseDur b p))
  else none

def compareTraces (a b : RequestTrace) : TraceComparison :=
  { requestA := a.requestId
    requestB := b.requestId
    totalA := phaseDur a .total
    totalB := phaseDur b .total
    deltaTotal := delta (phaseDur a .total) (phaseDur b .total)
    phaseDeltas := comparedPhases.filterMap (phaseDelta a b)
    retriesA := countRetry a
    retriesB := countRetry b
    kvHitsA := countObsOf a .kvHit
    kvHitsB := countObsOf b .kvHit
    kernelHitsA := countObsOf a .kernelHit
    kernelHitsB := countObsOf b .kernelHit
    specAcceptedA := countObsOf a .speculationVerify
    specAcceptedB := countObsOf b .speculationVerify
    bytesH2dA := sumU64 a.evidence FieldKeys.bytesH2D
    bytesH2dB := sumU64 b.evidence FieldKeys.bytesH2D
    workerRestartA := a.boots.length > 1
    workerRestartB := b.boots.length > 1
    coldModelA := anyCold a
    coldModelB := anyCold b }

/-- The deltas of a comparison are the integer differences, and none of the subtractions
that it makes overflows. -/
structure ExactComparison (a b : RequestTrace) (c : TraceComparison) : Prop where
  total : ¬ Overflows c.totalA c.totalB ∧ c.deltaTotal.toInt = (c.totalB.toNat : ℤ) - c.totalA.toNat
  phases : ∀ p ∈ comparedPhases, ∀ d, (p.name, d) ∈ c.phaseDeltas →
    ¬ Overflows (phaseDur a p) (phaseDur b p) ∧
      d.toInt = ((phaseDur b p).toNat : ℤ) - (phaseDur a p).toNat

theorem name_injOn_comparedPhases :
    ∀ p ∈ comparedPhases, ∀ q ∈ comparedPhases, p.name = q.name → p = q := by decide

section Deltas
variable {a b : RequestTrace}

theorem phaseDelta_eq_none_iff {p : Phase} :
    phaseDelta a b p = none ↔ phaseDur a p = 0 ∧ phaseDur b p = 0 := by
  have hzero : ∀ v : UInt64, v.toInt64 = 0 ↔ v = 0 := fun v =>
    ⟨fun h => congrArg Int64.toUInt64 h, fun h => congrArg UInt64.toInt64 h⟩
  unfold phaseDelta
  simp only [ne_eq, hzero]
  split_ifs with h
  · simpa [imp_iff_not_or] using h
  · simpa using h

/-- A phase is reported once, with the delta of its durations. -/
theorem mem_phaseDeltas {p : Phase} (hp : p ∈ comparedPhases) {d : Int64} :
    (p.name, d) ∈ (compareTraces a b).phaseDeltas ↔
      ¬ (phaseDur a p = 0 ∧ phaseDur b p = 0) ∧ d = delta (phaseDur a p) (phaseDur b p) := by
  have hvalue : ∀ q e, phaseDelta a b q = some e → e = (q.name, delta (phaseDur a q) (phaseDur b q))
      := by
    intro q e h
    unfold phaseDelta at h
    split_ifs at h
    exact (Option.some.inj h).symm
  rw [← phaseDelta_eq_none_iff]
  simp only [compareTraces, List.mem_filterMap]
  constructor
  · rintro ⟨q, hq, hsome⟩
    have heq := hvalue q _ hsome
    obtain rfl := name_injOn_comparedPhases p hp q hq (congrArg Prod.fst heq)
    exact ⟨by simp [hsome], congrArg Prod.snd heq⟩
  · rintro ⟨hne, rfl⟩
    obtain ⟨e, he⟩ := Option.ne_none_iff_exists'.mp hne
    exact ⟨p, hp, by rw [he, hvalue p e he]⟩

/-- A comparison is exact when all pairs of durations that it subtracts share their half. -/
theorem exactComparison_iff : ExactComparison a b (compareTraces a b) ↔
    ∀ p ∈ .total :: comparedPhases, SameHalf (phaseDur a p) (phaseDur b p) := by
  have htotal : (¬ Overflows (compareTraces a b).totalA (compareTraces a b).totalB ∧
      (compareTraces a b).deltaTotal.toInt =
        ((compareTraces a b).totalB.toNat : ℤ) - (compareTraces a b).totalA.toNat) ↔
      SameHalf (phaseDur a .total) (phaseDur b .total) := exact_iff _ _
  have hphase : ∀ p ∈ comparedPhases, (∀ d, (p.name, d) ∈ (compareTraces a b).phaseDeltas →
      ¬ Overflows (phaseDur a p) (phaseDur b p) ∧
        d.toInt = ((phaseDur b p).toNat : ℤ) - (phaseDur a p).toNat) ↔
      SameHalf (phaseDur a p) (phaseDur b p) := by
    intro p hp
    rw [← exact_iff]
    constructor
    · intro h
      by_cases hzero : phaseDur a p = 0 ∧ phaseDur b p = 0
      · rw [hzero.1, hzero.2]
        exact exact_zero
      · exact h _ ((mem_phaseDeltas hp).mpr ⟨hzero, rfl⟩)
    · intro h d hd
      obtain ⟨-, rfl⟩ := (mem_phaseDeltas hp).mp hd
      exact h
  rw [List.forall_mem_cons, ← htotal]
  refine ⟨fun h => ⟨h.total, fun p hp => (hphase p hp).mp (h.phases p hp)⟩, fun h => ⟨h.1, ?_⟩⟩
  exact fun p hp => (hphase p hp).mpr (h.2 p hp)

end Deltas
end ServingObservatory
