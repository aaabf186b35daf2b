import ServingObservatory.Comparison
import ServingObservatory.LiveIndex
import ServingObservatory.RequestBounds

/-!
# Bounded counterfactuals

A rule removes some observed time from the total latency, down to zero at most, and
reports what it changed and what follows. The difference of the totals is signed, and
negative means faster.
-/
namespace ServingObservatory
open Std SignedDeltas

inductive CounterfactualRule
  | removeQueueWait | removeRetry | warmResidency | reduceTransferByHalf
  deriving DecidableEq, Repr

structure CounterfactualResult where
  requestId : RequestId := {}
  rule : CounterfactualRule
  originalTotal : UInt64 := 0
  counterfactualTotal : UInt64 := 0
  deltaNs : Int64 := 0
  deltaPercent : F64 := F64.zero
  changedInputs : List Str := []
  derivedDifferences : List Str := []
  provenance : Provenance := .derived
  cls : ExplanationClass := .structurallyDerived

/-- `a >= b ? a - b : 0`. -/
def monus (a b : UInt64) : UInt64 := if a ≥ b then a - b else 0

theorem toNat_monus (a b : UInt64) : (monus a b).toNat = a.toNat - b.toNat := by
  unfold monus
  split_ifs with h
  · exact UInt64.toNat_sub_of_le _ _ h
  · have hlt : a.toNat < b.toNat := UInt64.lt_iff_toNat_lt.mp (UInt64.not_le.mp h)
    rw [UInt64.toNat_zero]
    omega

/-- `0.7`. -/
def F64.warmSaving : F64 := ⟨0x3FE6666666666666⟩

section Rules
variable [Platform]

/-- The estimated part of a cold prefill that warm residency saves. -/
def warmSaved (prefill : UInt64) : UInt64 :=
  Platform.toU64 (Platform.mul (Platform.ofU64 prefill) F64.warmSaving)

/-- What a rule changes in the result that it starts from. -/
def CounterfactualResult.apply (r : CounterfactualResult) (t : RequestTrace) :
    CounterfactualResult :=
  match r.rule with
  | .removeQueueWait =>
    let q := t.getPhase .queue
    if q.present then
      { r with
        changedInputs := [lit "queue duration " ++ decimal q.duration.toNat ++ lit " ns removed"]
        counterfactualTotal := monus r.originalTotal q.duration
        derivedDifferences := [lit "total latency reduced by queue residence"] }
    else r
  | .removeRetry =>
    let rt := t.getPhase .retry
    if rt.present then
      { r with
        changedInputs := [lit "retry interval " ++ decimal rt.duration.toNat ++ lit " ns removed"]
        counterfactualTotal := monus r.originalTotal rt.duration
        derivedDifferences := [lit "retry time removed from total"] }
    else
      { r with
        changedInputs := [lit "no measurable retry interval; retry retained"]
        derivedDifferences := [lit "no delta (missing retry duration)"] }
  | .warmResidency =>
    let pf := t.getPhase .prefill
    if anyCold t ∧ pf.present then
      let saved := warmSaved pf.duration
      { r with
        changedInputs :=
          [lit "cold residency replaced with warm residency (stated model: 70% prefill saving)"]
        counterfactualTotal := monus r.originalTotal saved
        derivedDifferences :=
          [lit "prefill reduced by estimated " ++ decimal saved.toNat ++ lit " ns"]
        provenance := .estimated
        cls := .plausibleButUnproven }
    else
      { r with
        changedInputs := [lit "residency already warm (or unknown); no counterfactual applied"]
        derivedDifferences := [lit "no delta"] }
  | .reduceTransferByHalf =>
    let tr := t.getPhase .transfer
    if tr.present then
      let saved := tr.duration / 2
      { r with
        changedInputs := [lit "transfer duration halved (stated transform)"]
        counterfactualTotal := monus r.originalTotal saved
        derivedDifferences := [lit "transfer reduced by " ++ decimal saved.toNat ++ lit " ns"] }
    else { r with derivedDifferences := [lit "no transfer evidence; no delta"] }

def counterfactual (t : RequestTrace) (rule : CounterfactualRule) : CounterfactualResult :=
  let originalTotal := totalLatencyOf t
  let start : CounterfactualResult :=
    { requestId := t.requestId, rule := rule, originalTotal := originalTotal,
      counterfactualTotal := originalTotal }
  let r := start.apply t
  let deltaNs := delta r.originalTotal r.counterfactualTotal
  { r with
    deltaNs := deltaNs
    deltaPercent :=
      if r.originalTotal ≠ 0 then
        Platform.mul (Platform.div (Platform.ofI64 deltaNs) (Platform.ofU64 r.originalTotal))
          F64.hundred
      else F64.zero }

/-- The time that a rule removes from a trace. -/
def savedBy (t : RequestTrace) : CounterfactualRule → UInt64
  | .removeQueueWait => phaseDur t .queue
  | .removeRetry => phaseDur t .retry
  | .warmResidency =>
    if anyCold t ∧ (t.getPhase .prefill).present then warmSaved (t.getPhase .prefill).duration
    else 0
  | .reduceTransferByHalf => phaseDur t .transfer / 2

/-- A counterfactual that is not slower, with a signed difference that is the integer one
and that no overflow produced. -/
structure ExactCounterfactual (r : CounterfactualResult) : Prop where
  defined : ¬ Overflows r.originalTotal r.counterfactualTotal
  delta : r.deltaNs.toInt = (r.counterfactualTotal.toNat : ℤ) - r.originalTotal.toNat
  faster : r.deltaNs.toInt ≤ 0

/-- Each rule subtracts what it saves, and nothing else of the totals. -/
theorem counterfactual_totals (t : RequestTrace) (rule : CounterfactualRule) :
    (counterfactual t rule).originalTotal = totalLatencyOf t ∧
      (counterfactual t rule).counterfactualTotal = monus (totalLatencyOf t) (savedBy t rule) := by
  have hnone : monus (totalLatencyOf t) 0 = totalLatencyOf t := by
    rw [← UInt64.toNat_inj, toNat_monus]
    rfl
  have hhalf : (0 : UInt64) / 2 = 0 := rfl
  cases rule <;> simp only [counterfactual, CounterfactualResult.apply, savedBy, phaseDur] <;>
    split_ifs <;> simp [hnone, hhalf]

theorem counterfactual_le (t : RequestTrace) (rule : CounterfactualRule) :
    (counterfactual t rule).counterfactualTotal ≤ (counterfactual t rule).originalTotal := by
  obtain ⟨horig, hcf⟩ := counterfactual_totals t rule
  rw [horig, hcf, UInt64.le_iff_toNat_le, toNat_monus]
  omega

/-- The difference is exact for totals below 2^63, and for what a rule leaves at or above. -/
theorem exactCounterfactual_iff (t : RequestTrace) (rule : CounterfactualRule) :
    ExactCounterfactual (counterfactual t rule) ↔ (totalLatencyOf t).toNat < 2 ^ 63 ∨
      2 ^ 63 + (savedBy t rule).toNat ≤ (totalLatencyOf t).toNat := by
  obtain ⟨horig, hcf⟩ := counterfactual_totals t rule
  have hle := UInt64.le_iff_toNat_le.mp (counterfactual_le t rule)
  have hdelta : (counterfactual t rule).deltaNs =
      delta (counterfactual t rule).originalTotal (counterfactual t rule).counterfactualTotal := rfl
  have hexact : ExactCounterfactual (counterfactual t rule) ↔
      Exact (counterfactual t rule).originalTotal (counterfactual t rule).counterfactualTotal := by
    rw [Exact, ← hdelta]
    refine ⟨fun h => ⟨h.defined, h.delta⟩, fun h => ⟨h.1, h.2, ?_⟩⟩
    rw [h.2]
    omega
  rw [hexact, exact_iff, SameHalf, horig, hcf, toNat_monus]
  omega

/-- Where the deltas of comparisons and counterfactuals are exact. -/
theorem signedDeltas_exact_iff (a b : RequestTrace) (rule : CounterfactualRule) :
    (ExactComparison a b (compareTraces a b) ↔
        ∀ p ∈ .total :: comparedPhases, SameHalf (phaseDur a p) (phaseDur b p)) ∧
      (counterfactual a rule).counterfactualTotal ≤ (counterfactual a rule).originalTotal ∧
      (ExactCounterfactual (counterfactual a rule) ↔ (totalLatencyOf a).toNat < 2 ^ 63 ∨
        2 ^ 63 + (savedBy a rule).toNat ≤ (totalLatencyOf a).toNat) :=
  ⟨exactComparison_iff, counterfactual_le a rule, exactCounterfactual_iff a rule⟩

/-- The phases of evidence that is sorted already. -/
theorem getPhase_of_sorted {l : List Observation} (hid : (l.map Observation.id).Nodup)
    (h : Sorting.Ascending traceLt l) (rid : RequestId) (p : Phase) :
    (reconstructTrace l rid).getPhase p = extractPhases l p := by
  rw [RequestTrace.getPhase, reconstructTrace_phases, sort_traceLt_eq_self hid h]

end Rules

/-- A request that ends where it begins. -/
def shortRequest : List Observation :=
  [{ id := ⟨⟨0, 1⟩⟩, type := .request, hasRecvTs := true, recvTs := 1 }]

/-- A request over nearly the whole range of the clock, queued for half of it. -/
def longRequest : List Observation :=
  [{ id := ⟨⟨0, 1⟩⟩, type := .request, hasRecvTs := true, recvTs := 1 },
    { id := ⟨⟨0, 2⟩⟩, type := .queueEnter, hasRecvTs := true, recvTs := 1 },
    { id := ⟨⟨0, 3⟩⟩, type := .queueLeave, hasRecvTs := true, recvTs := 0x8000000000000000 },
    { id := ⟨⟨0, 4⟩⟩, type := .completion, hasRecvTs := true, recvTs := 0xFFFFFFFFFFFFFFFF }]

/-- The longer request is reported as two nanoseconds faster, and removing its queue wait
overflows. -/
theorem not_exact_longRequest :
    let a := @reconstructTrace Platform.machine shortRequest {}
    let b := @reconstructTrace Platform.machine longRequest {}
    let r := @counterfactual Platform.machine b .removeQueueWait
    (compareTraces a b).deltaTotal = -2 ∧ Overflows r.originalTotal r.counterfactualTotal ∧
      ¬ ExactComparison a b (compareTraces a b) ∧ ¬ ExactCounterfactual r := by
  intro a b r
  let _ : Platform := Platform.machine
  have hshort : ∀ p, a.getPhase p = extractPhases shortRequest p :=
    getPhase_of_sorted (by decide) (by unfold Sorting.Ascending; decide) {}
  have hlong : ∀ p, b.getPhase p = extractPhases longRequest p :=
    getPhase_of_sorted (by decide) (by unfold Sorting.Ascending; decide) {}
  have hshortTotal : phaseDur a .total = 0 := by
    rw [phaseDur, hshort]
    decide
  have hlongTotal : phaseDur b .total = 0xFFFFFFFFFFFFFFFE := by
    rw [phaseDur, hlong]
    decide
  have hdelta : (compareTraces a b).deltaTotal = -2 := by
    change delta (phaseDur a .total) (phaseDur b .total) = -2
    rw [hshortTotal, hlongTotal]
    decide
  have horiginal : totalLatencyOf b = 0xFFFFFFFFFFFFFFFE := by
    rw [totalLatencyOf, hlong]
    decide
  have hqueue : savedBy b .removeQueueWait = 0x7FFFFFFFFFFFFFFF := by
    rw [savedBy, phaseDur, hlong]
    decide
  have htotals := counterfactual_totals b .removeQueueWait
  rw [horiginal, hqueue] at htotals
  have hoverflow : Overflows r.originalTotal r.counterfactualTotal := by
    rw [htotals.1, htotals.2]
    exact .inr (by decide)
  refine ⟨hdelta, hoverflow, fun h => ?_, fun h => h.defined hoverflow⟩
  have htotal := (exactComparison_iff.mp h) .total (by simp)
  rw [hshortTotal, hlongTotal] at htotal
  exact absurd htotal (by decide)

end ServingObservatory
