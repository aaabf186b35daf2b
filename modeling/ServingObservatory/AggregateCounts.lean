import ServingObservatory.LiveIndex
import ServingObservatory.WordSums

/-!
# What the replay aggregate counts

The aggregate is folded over the traces and over the evidence of each, and only its hash
is ever seen. Read as sums over the evidence with a request identity, its accumulators
show what they count: the retries also count speculated tokens, and the GPU time skips
values that are stored as doubles.
-/
namespace ServingObservatory
open Std WordSums

/-- The observations with a request identity. -/
def withRequest (l : List Observation) : List Observation := l.filter fun o => !o.requestId.isNull

/-- The retries among the evidence with a request identity. -/
def retryCount (l : List Observation) : ℕ := (withRequest l).countP fun o => o.type = .retry

/-- At least one: neither negative nor a NaN. -/
def F64.AtLeastOne (v : F64) : Prop := F64.one.bits ≤ v.bits ∧ v.bits ≤ 0x7FF0000000000000

/-- The observation carries at least one millisecond of GPU time, in any numeric type. -/
def Observation.UsesGpu (o : Observation) : Prop :=
  match o.fields[FieldKeys.gpuMs]? with
  | some (.u64 v) => 1 ≤ v
  | some (.i64 v) => 1 ≤ v
  | some (.f64 v) => v.AtLeastOne
  | _ => False

/-- The tokens of a speculation: those proposed, or those accepted and rejected. -/
def Observation.speculated (o : Observation) : ℕ :=
  if o.type = .speculationStart then (o.u64Field FieldKeys.specTokens 1).toNat
  else if o.type = .speculationVerify then
    (o.u64Field FieldKeys.acceptedTokens 0).toNat + (o.u64Field FieldKeys.rejectedTokens 0).toNat
  else 0

section Aggregates
variable [Platform]

/-- The aggregates of the traces of some evidence. -/
def aggregateOf (l : List Observation) : Aggregate := (tracesOf l).foldl Aggregate.addTrace {}

/-- The snapshot that is hashed. -/
def aggregateSnapshot (l : List Observation) : Json :=
  aggregateJson (UInt64.ofNat l.length) (UInt64.ofNat (tracesOf l).length)
    (tailMetrics ((tracesOf l).map totalLatencyOf)) (aggregateOf l)

/-- The nanoseconds of a GPU time that is stored as an integer. -/
def Observation.integerGpuNs (o : Observation) : UInt64 :=
  match o.fields[FieldKeys.gpuMs]? with
  | some (.u64 v) =>
    if v = 0 then 0 else Platform.toU64 (Platform.mul (Platform.ofU64 v) F64.million)
  | some (.i64 v) =>
    if v = 0 then 0 else Platform.toU64 (Platform.mul (Platform.ofI64 v) F64.million)
  | _ => 0

/-- The aggregates count what they name. -/
structure CountsWhatItNames (l : List Observation) (g : Aggregate) : Prop where
  retries : g.retries.toNat = retryCount l
  total_latency : g.totalLatency.toNat =
    ((tracesOf l).map fun t => (attributeResources t).totalLatency.toNat).sum % 2 ^ 64
  gpu : (∃ o ∈ withRequest l, o.UsesGpu) → 0 < g.gpu

/-- The evidence of the traces is the evidence with a request identity. -/
theorem evidence_tracesOf_perm (l : List Observation) :
    ((tracesOf l).flatMap RequestTrace.evidence).Perm (withRequest l) := by
  have hscoped : withRequest l = l.filter fun o => ∃ rid ∈ requestsOf l, groupKey o = some rid := by
    refine List.filter_congr fun o ho => ?_
    cases hnull : o.requestId.isNull with
    | true => simp [groupKey, hnull]
    | false =>
      have hkey : groupKey o = some o.requestId := by simp [groupKey, hnull]
      have hmem : o.requestId ∈ requestsOf l :=
        ExtTreeMap.mem_keys.mpr ((mem_groupByRequest l _).mpr ⟨o, ho, hkey⟩)
      simp [hkey, hmem]
  rw [hscoped, tracesOf_eq, List.flatMap_map]
  refine List.Perm.trans ?_ (OrderedMap.flatMap_group_perm groupKey ExtTreeMap.nodup_keys l)
  refine List.Perm.flatMap_left _ fun rid _ => ?_
  rw [reconstructTrace_evidence]
  exact sorter.perm traceLt _

/-- The sums over the evidence of the traces. -/
theorem sum_evidence_tracesOf (l : List Observation) (f : Observation → ℕ) :
    ((tracesOf l).map fun t => (t.evidence.map f).sum).sum = ((withRequest l).map f).sum := by
  rw [← ((evidence_tracesOf_perm l).map f).sum_eq, List.map_flatMap, List.flatMap_def,
    List.sum_flatten, List.map_map]
  rfl

theorem addObservation_parts (g : Aggregate) (o : Observation) :
    (g.addObservation o).retries =
        g.retries + UInt64.ofNat (if o.type = .retry then 1 else 0) ∧
      (g.addObservation o).gpu = g.gpu + UInt64.ofNat (gpuNs o).toNat ∧
      (g.addObservation o).totalLatency = g.totalLatency := by
  unfold Aggregate.addObservation
  split_ifs <;> simp

/-- The speculated tokens of a trace are those of its evidence. -/
theorem speculation_attributeResources (t : RequestTrace) :
    (attributeResources t).specProposed + (attributeResources t).specAccepted +
      (attributeResources t).specRejected =
        UInt64.ofNat (t.evidence.map Observation.speculated).sum := by
  have hsum : ∀ type key default, sumOf t.evidence type key default =
      UInt64.ofNat (t.evidence.map fun o =>
        if o.type = type then (o.u64Field key default).toNat else 0).sum := by
    intro type key default
    rw [sumOf, foldl_add_if, UInt64.zero_add]
  have hparts : (attributeResources t).specProposed =
        sumOf t.evidence .speculationStart FieldKeys.specTokens 1 ∧
      (attributeResources t).specAccepted =
        sumOf t.evidence .speculationVerify FieldKeys.acceptedTokens 0 ∧
      (attributeResources t).specRejected =
        sumOf t.evidence .speculationVerify FieldKeys.rejectedTokens 0 := ⟨rfl, rfl, rfl⟩
  rw [hparts.1, hparts.2.1, hparts.2.2, hsum, hsum, hsum, ← UInt64.ofNat_add, ← UInt64.ofNat_add,
    ← List.sum_map_add, ← List.sum_map_add]
  congr 2
  refine List.map_congr_left fun o _ => ?_
  unfold Observation.speculated
  by_cases hstart : o.type = .speculationStart
  · simp [hstart]
  · by_cases hverify : o.type = .speculationVerify <;> simp [hstart, hverify]

theorem addTrace_parts (g : Aggregate) (t : RequestTrace) :
    (g.addTrace t).retries = g.retries + UInt64.ofNat
        (t.evidence.map fun o => o.speculated + if o.type = .retry then 1 else 0).sum ∧
      (g.addTrace t).gpu = g.gpu + UInt64.ofNat (t.evidence.map fun o => (gpuNs o).toNat).sum ∧
      (g.addTrace t).totalLatency = g.totalLatency +
        UInt64.ofNat (attributeResources t).totalLatency.toNat := by
  simp only [Aggregate.addTrace]
  refine ⟨?_, ?_, ?_⟩
  · rw [foldl_part Aggregate.retries fun g o => (addObservation_parts g o).1,
      speculation_attributeResources, List.sum_map_add, UInt64.ofNat_add, UInt64.add_assoc]
  · rw [foldl_part Aggregate.gpu fun g o => (addObservation_parts g o).2.1]
  · rw [foldl_frame Aggregate.totalLatency fun g o => (addObservation_parts g o).2.2,
      UInt64.ofNat_toNat]

/-- The time is read as an integer to decide and as a double to add. -/
theorem gpuNs_eq (o : Observation) : gpuNs o = o.integerGpuNs := by
  unfold gpuNs Observation.u64Field Observation.f64Field Observation.integerGpuNs
  rcases o.fields[FieldKeys.gpuMs]? with _ | (_ | _ | v | v | _ | _ | _ | _) <;> try rfl
  · have hzero : v.toUInt64 = 0 ↔ v = 0 :=
      ⟨fun h => congrArg Int64.ofUInt64 h, fun h => congrArg Int64.toUInt64 h⟩
    simp [UInt64.pos_iff_ne_zero, hzero]
  · simp [UInt64.pos_iff_ne_zero]

/-- The accumulators as sums over the evidence. -/
theorem aggregateOf_eq (l : List Observation) :
    (aggregateOf l).retries =
        UInt64.ofNat (((withRequest l).map Observation.speculated).sum + retryCount l) ∧
      (aggregateOf l).gpu = UInt64.ofNat (total Observation.integerGpuNs (withRequest l)) ∧
      (aggregateOf l).totalLatency = UInt64.ofNat
        ((tracesOf l).map fun t => (attributeResources t).totalLatency.toNat).sum := by
  have hcount : ((withRequest l).map fun o => if o.type = .retry then 1 else 0).sum =
      retryCount l := sum_ite_one (fun o : Observation => o.type = .retry) _
  unfold aggregateOf
  refine ⟨?_, ?_, ?_⟩
  · rw [foldl_part Aggregate.retries fun g t => (addTrace_parts g t).1, UInt64.zero_add,
      sum_evidence_tracesOf, List.sum_map_add, hcount]
  · rw [foldl_part Aggregate.gpu fun g t => (addTrace_parts g t).2.1, UInt64.zero_add,
      sum_evidence_tracesOf, total]
    simp only [gpuNs_eq]
  · rw [foldl_part Aggregate.totalLatency fun g t => (addTrace_parts g t).2.2,
      UInt64.zero_add]

omit [Platform] in
/-- A sum that wraps is one of its summands when that fits and the other one vanishes. -/
theorem toNat_ofNat_add_eq_iff (m n : ℕ) :
    (UInt64.ofNat (m + n)).toNat = n ↔ n < 2 ^ 64 ∧ 2 ^ 64 ∣ m := by
  rw [UInt64.toNat_ofNat']
  omega

/-- The hashed snapshot counts what it names when the speculated tokens vanish modulo 2^64,
and the GPU times stored as integers do not where there are any of at least one. -/
theorem countsWhatItNames_iff (l : List Observation) :
    (∀ r, replay l = .ok r →
        r.aggregateDigest = Sha256.hash (aggregateSnapshot l).toCanonical) ∧
      (CountsWhatItNames l (aggregateOf l) ↔
        (retryCount l < 2 ^ 64 ∧ 2 ^ 64 ∣ ((withRequest l).map Observation.speculated).sum) ∧
          ((∃ o ∈ withRequest l, o.UsesGpu) →
            ¬ 2 ^ 64 ∣ total Observation.integerGpuNs (withRequest l))) := by
  obtain ⟨hretries, hgpu, hlatency⟩ := aggregateOf_eq l
  refine ⟨fun r hr => ?_, ?_⟩
  · obtain ⟨-, rfl⟩ := (replay_eq_ok_iff l r).mp hr
    rfl
  · rw [← toNat_ofNat_add_eq_iff, ← hretries, ← ofNat_pos_iff, ← hgpu]
    refine ⟨fun h => ⟨h.retries, h.gpu⟩, fun h => ⟨h.1, ?_, h.2⟩⟩
    rw [hlatency, UInt64.toNat_ofNat']

end Aggregates

/-- A speculation of one token that took a millisecond of GPU time, stored as a double. -/
def speculativeStep : Observation :=
  { type := .speculationStart
    fields := (ExtTreeMap.insert ∅ FieldKeys.requestId (.id ⟨0, 1⟩)).insert FieldKeys.gpuMs
      (.f64 F64.one) }

/-- It is counted as a retry, and its GPU time is not counted. -/
theorem not_countsWhatItNames_speculativeStep :
    ¬ @CountsWhatItNames Platform.machine [speculativeStep]
      (@aggregateOf Platform.machine [speculativeStep]) := by
  intro h
  let _ : Platform := Platform.machine
  have hid : speculativeStep.fields[FieldKeys.requestId]? = some (.id ⟨0, 1⟩) := by
    rw [speculativeStep, ExtTreeMap.getElem?_insert, if_neg (by decide),
      ExtTreeMap.getElem?_insert, if_pos (by decide)]
  have htokens : speculativeStep.fields[FieldKeys.specTokens]? = none := by
    rw [speculativeStep, ExtTreeMap.getElem?_insert, if_neg (by decide),
      ExtTreeMap.getElem?_insert, if_neg (by decide)]
    rfl
  have hrequest : withRequest [speculativeStep] = [speculativeStep] := by
    simp [withRequest, Observation.requestId, Observation.idField, hid, Id.isNull]
  have hspeculated : speculativeStep.speculated = 1 := by
    have htype : speculativeStep.type = .speculationStart := rfl
    simp [Observation.speculated, Observation.u64Field, htype, htokens]
  have hretries := h.retries
  rw [(aggregateOf_eq [speculativeStep]).1, toNat_ofNat_add_eq_iff, hrequest] at hretries
  simp [hspeculated] at hretries

end ServingObservatory
