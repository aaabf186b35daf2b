import ServingObservatory.Attribution
import ServingObservatory.WordSums

/-!
# Availability of the byte metrics

Attribution marks a metric as unavailable where no evidence carries it. For the bytes it
decides this from a sum of 64 bits, and for one metric from the presence of any evidence,
so a metric can be marked wrongly in both directions.
-/
namespace ServingObservatory
open Std WordSums

/-- The metrics of bytes that attribution reports. -/
inductive ByteMetric
  | h2d | d2h | interNode | kv | tensor | workspace
  deriving DecidableEq, Repr

namespace ByteMetric

/-- The name under which availability is marked. -/
def name : ByteMetric → Str
  | h2d => lit "bytes_h2d"
  | d2h => lit "bytes_d2h"
  | interNode => lit "bytes_inter_node"
  | kv => lit "bytes_kv"
  | tensor => lit "bytes_tensor"
  | workspace => lit "bytes_workspace"

/-- The field of an observation that is summed. -/
def key : ByteMetric → Str
  | h2d => FieldKeys.bytesH2D
  | d2h => FieldKeys.bytesD2H
  | interNode => FieldKeys.bytesInterNode
  | kv => FieldKeys.bytesKV
  | tensor => FieldKeys.bytesTensor
  | workspace => FieldKeys.bytesWorkspace

def value (a : ResourceAttribution) : ByteMetric → UInt64
  | h2d => a.bytesH2d
  | d2h => a.bytesD2h
  | interNode => a.bytesInterNode
  | kv => a.bytesKv
  | tensor => a.bytesTensor
  | workspace => a.bytesWorkspace

end ByteMetric

/-- The field is there and holds an integer. -/
def Observation.hasInteger (o : Observation) (k : Str) : Bool :=
  match o.fields[k]? with
  | some (.u64 _) => true
  | some (.i64 _) => true
  | _ => false

/-- A field that holds no integer counts as zero. -/
theorem Observation.u64Field_of_not_hasInteger {o : Observation} {k : Str}
    (h : o.hasInteger k = false) : o.u64Field k = 0 := by
  unfold hasInteger at h
  unfold u64Field
  split at h <;> simp_all

/-- Every byte metric is available exactly when some evidence carries its field, and an
unavailable one is zero. -/
structure BytesEvidenced (evidence : List Observation) (a : ResourceAttribution) : Prop where
  available : ∀ m : ByteMetric,
    a.has m.name = true ↔ ∃ o ∈ evidence, o.hasInteger m.key = true
  zero : ∀ m : ByteMetric, a.has m.name = false → m.value a = 0

section Marks
variable (a : ResourceAttribution) {m n : Str} (p : Provenance) (available : Bool)

theorem has_mark_self : (a.mark m p available).has m = available := by
  simp [ResourceAttribution.has, ResourceAttribution.mark]

theorem has_mark_of_ne (h : m ≠ n) : (a.mark m p available).has n = a.has n := by
  simp [ResourceAttribution.has, ResourceAttribution.mark, ExtTreeMap.getD_insert, h]

theorem value_mark (metric : ByteMetric) :
    metric.value (a.mark m p available) = metric.value a := by
  cases metric <;> rfl

end Marks

section Attribution
variable [Platform] (t : RequestTrace)

theorem value_attributeResources (m : ByteMetric) :
    m.value (attributeResources t) = sumU64 t.evidence m.key := by
  simp only [attributeResources, ResourceAttribution.markPhase, ResourceAttribution.markCount,
    value_mark]
  cases m <;> rfl

/-- What decides the availability of a byte metric in the source. -/
theorem has_attributeResources (m : ByteMetric) : (attributeResources t).has m.name =
    (decide (sumU64 t.evidence m.key > 0) || decide (m = .h2d ∧ t.evidence.length > 0)) := by
  simp only [attributeResources, ResourceAttribution.markPhase, ResourceAttribution.markCount]
  cases m <;> simp (disch := decide +kernel) only [ByteMetric.name, ByteMetric.key, has_mark_of_ne,
    has_mark_self] <;> simp

omit [Platform] in
theorem sumU64_eq (evidence : List Observation) (key : Str) :
    sumU64 evidence key = UInt64.ofNat (total (·.u64Field key) evidence) := by
  rw [sumU64, foldl_add, UInt64.zero_add]

omit [Platform] in
/-- Without the field there is nothing to sum. -/
theorem total_of_not_hasInteger {evidence : List Observation} {key : Str}
    (h : ¬ ∃ o ∈ evidence, o.hasInteger key = true) : total (·.u64Field key) evidence = 0 := by
  rw [total_eq_zero_iff]
  intro o ho
  refine Observation.u64Field_of_not_hasInteger (Bool.eq_false_iff.mpr fun hint => ?_)
  exact h ⟨o, ho, hint⟩

/-- An unavailable metric has summed to zero. -/
theorem value_of_unavailable {m : ByteMetric} (h : (attributeResources t).has m.name = false) :
    m.value (attributeResources t) = 0 := by
  rw [has_attributeResources, Bool.or_eq_false_iff, decide_eq_false_iff_not] at h
  rw [value_attributeResources]
  by_contra hne
  exact h.1 (UInt64.pos_iff_ne_zero.mpr hne)

/-- The host-to-device bytes are available with any evidence. -/
theorem has_h2d : (attributeResources t).has ByteMetric.h2d.name = true ↔ t.evidence ≠ [] := by
  have hsum : sumU64 t.evidence ByteMetric.h2d.key > 0 → t.evidence ≠ [] := by
    rintro hpos hnil
    rw [hnil] at hpos
    exact absurd hpos (by decide)
  rw [has_attributeResources, Bool.or_eq_true, decide_eq_true_eq, decide_eq_true_eq]
  simpa [List.length_pos_iff] using hsum

/-- The other bytes are available when their sum does not wrap to zero. -/
theorem has_of_ne_h2d {m : ByteMetric} (hm : m ≠ .h2d) :
    (attributeResources t).has m.name = true ↔ ¬ 2 ^ 64 ∣ total (·.u64Field m.key) t.evidence := by
  rw [has_attributeResources, Bool.or_eq_true, decide_eq_true_eq, gt_iff_lt, sumU64_eq,
    ofNat_pos_iff]
  simp [hm]

/-- Availability is exact when any evidence at all includes the host-to-device field, and
no other field that is carried sums to a multiple of 2^64. -/
theorem bytesEvidenced_iff : BytesEvidenced t.evidence (attributeResources t) ↔
    (t.evidence = [] ∨ ∃ o ∈ t.evidence, o.hasInteger FieldKeys.bytesH2D = true) ∧
      ∀ m : ByteMetric, m ≠ .h2d → (∃ o ∈ t.evidence, o.hasInteger m.key = true) →
        ¬ 2 ^ 64 ∣ total (·.u64Field m.key) t.evidence := by
  constructor
  · rintro ⟨havailable, -⟩
    refine ⟨?_, fun m hm hcarried => ?_⟩
    · have hiff := havailable .h2d
      rw [has_h2d] at hiff
      exact or_iff_not_imp_left.mpr hiff.mp
    · rw [← has_of_ne_h2d t hm]
      exact (havailable m).mpr hcarried
  · rintro ⟨hh2d, hother⟩
    refine ⟨fun m => ?_, fun m => value_of_unavailable t⟩
    by_cases hm : m = .h2d
    · subst hm
      rw [has_h2d]
      refine ⟨fun hne => hh2d.resolve_left hne, ?_⟩
      rintro ⟨o, ho, -⟩
      exact List.ne_nil_of_mem ho
    · rw [has_of_ne_h2d t hm]
      refine ⟨fun hsum => ?_, hother m hm⟩
      by_contra hnone
      rw [total_of_not_hasInteger hnone] at hsum
      exact hsum (dvd_zero _)

end Attribution

/-- An observation that reports no bytes from the device, and says nothing of bytes to it. -/
def silentReport : Observation :=
  { fields := ExtTreeMap.insert ∅ FieldKeys.bytesD2H (.u64 0) }

/-- The field that is carried is unavailable, and the one that is not is available. -/
theorem not_bytesEvidenced_silentReport :
    ¬ BytesEvidenced [silentReport]
      (@attributeResources Platform.machine { evidence := [silentReport] }) := by
  intro h
  have hh2d := (h.available .h2d).mp
    ((@has_h2d Platform.machine { evidence := [silentReport] }).mpr (by simp))
  simp [silentReport, Observation.hasInteger, ByteMetric.key, FieldKeys.bytesD2H,
    FieldKeys.bytesH2D, lit] at hh2d

end ServingObservatory
