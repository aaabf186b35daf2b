import ServingObservatory.LatencyBounds

/-!
# Evidence in order

What the times of the evidence have to satisfy for the decomposition to stay within the
request: nothing before the arrival, nothing after the completion, and no phase that ends
before it starts.
-/
namespace ServingObservatory
open Std Sorting Covering

section Evidence
variable (obs : List Observation)

/-- The time of arrival: the earliest request, else queueing, else evidence. -/
def arrivalOf : UInt64 :=
  if earliest obs .request ≠ 0 then earliest obs .request
  else if earliest obs .queueEnter ≠ 0 then earliest obs .queueEnter
  else firstTime obs

/-- The time of the latest completion, else of the latest evidence. -/
def completionOf : UInt64 :=
  if latest obs .completion ≠ 0 then latest obs .completion else lastTime obs

/-- The time when the request closes: at the completion, but not before the arrival. -/
def closingOf : UInt64 :=
  if arrivalOf obs = 0 then 0
  else if completionOf obs < arrivalOf obs then arrivalOf obs
  else completionOf obs

/-- From one time to another, in order and within the request. -/
def Inside (s e : UInt64) : Prop := arrivalOf obs ≤ s ∧ s ≤ e ∧ e ≤ closingOf obs

/-- The time from which a batch waits: its forming, else its sealing. -/
def batchTime : UInt64 :=
  if occurs obs .batchForm then earliest obs .batchForm else earliest obs .batchSeal

/-- The evidence that reconstruction turns into phases is in order. A time of zero is none. -/
structure WellOrdered : Prop where
  moments : ∀ x ∈ [earliest obs .admission, earliest obs .retry, earliest obs .recovery,
    latest obs .completion], x ≠ 0 → Inside obs x x
  spans : ∀ p ∈ [(ObsType.queueEnter, ObsType.queueLeave), (.transferStart, .transferEnd),
      (.prefillStart, .prefillEnd), (.decodeStepStart, .decodeStepEnd),
      (.speculationStart, .speculationVerify)],
    earliest obs p.1 ≠ 0 ∧ latest obs p.2 ≠ 0 → Inside obs (earliest obs p.1) (latest obs p.2)
  batch : (occurs obs .batchForm ∨ occurs obs .batchSeal) ∧ earliest obs .dispatch ≠ 0 →
    Inside obs (batchTime obs) (earliest obs .dispatch)
  dispatch : earliest obs .dispatch ≠ 0 →
    Inside obs (earliest obs .dispatch) (earliest obs .dispatch) ∧
      executionStart (earliest obs .prefillStart) (earliest obs .decodeStepStart) ≤ closingOf obs
  first_token : earliest obs .decodeStepStart ≠ 0 ∧ latest obs .decodeStepEnd ≠ 0 →
    latest obs .prefillEnd ≠ 0 → Inside obs (latest obs .prefillEnd) (latest obs .decodeStepEnd)

variable {obs} {v : List Observation} (hperm : v.Perm obs) (hsorted : Ascending traceLt v)
include hperm hsorted

theorem ts_arrivalTime : (arrivalTime v).ts = arrivalOf obs := by
  have hreq := ts_firstObs hperm hsorted .request
  have hqueue := ts_firstObs hperm hsorted .queueEnter
  have hhead := ts_head hperm hsorted
  have hempty : v.isEmpty = true → firstTime obs = 0 := fun h => by
    obtain rfl := List.isEmpty_iff.mp h
    exact hhead.symm
  simp only [arrivalTime, arrivalOf, ← hreq, ← hqueue, ← hhead] at hempty ⊢
  split_ifs <;> simp_all

theorem ts_completionTime : (completionTime v).ts = completionOf obs := by
  have hcomp := ts_lastObs hperm hsorted .completion
  have hlast := ts_getLast hperm hsorted
  have hempty : v.isEmpty = true → lastTime obs = 0 := fun h => by
    obtain rfl := List.isEmpty_iff.mp h
    exact hlast.symm
  simp only [completionTime, completionOf, ← hcomp, ← hlast] at hempty ⊢
  split_ifs <;> simp_all

theorem closingTime_eq : closingTime v = closingOf obs := by
  simp only [closingTime, closingOf, ts_arrivalTime hperm hsorted, ts_completionTime hperm hsorted]

theorem ts_batchTime :
    (tdom (firstObs v .batchForm <|> firstObs v .batchSeal)).ts = batchTime obs := by
  have hform := isSome_firstObs hperm .batchForm
  rw [batchTime, ← hform, ← ts_firstObs hperm hsorted, ← ts_firstObs hperm hsorted]
  cases firstObs v .batchForm with
  | none => rfl
  | some o => rfl

omit hperm hsorted in
/-- With decoding inside the request, the first token is inside if the end of prefill is. -/
theorem inside_firstToken_iff {pe dss dse : UInt64} (hdecode : Inside obs dss dse) :
    Inside obs (firstTokenStart pe dss) (firstTokenEnd pe dss dse) ↔
      (pe ≠ 0 → Inside obs pe dse) := by
  simp only [Inside, firstTokenStart, firstTokenEnd, UInt64.le_iff_toNat_le,
    UInt64.lt_iff_toNat_lt] at hdecode ⊢
  by_cases hpe : pe = 0
  · have hno : ¬ dse.toNat < dss.toNat := by omega
    simpa [hpe, hno] using hdecode
  · simp only [ne_eq, hpe, not_false_eq_true, if_true, forall_const]
    split_ifs with hlt <;> omega

omit hperm hsorted in
theorem inside_dispatch_iff {d x : UInt64} :
    Inside obs d (if x < d then d else x) ↔ Inside obs d d ∧ x ≤ closingOf obs := by
  simp only [Inside, UInt64.le_iff_toNat_le, UInt64.lt_iff_toNat_lt]
  split_ifs with hlt <;> omega

omit hperm hsorted in
theorem inside_arrivalOf (h : arrivalOf obs ≠ 0) : Inside obs (arrivalOf obs) (arrivalOf obs) := by
  refine ⟨UInt64.le_rfl, UInt64.le_rfl, ?_⟩
  rw [closingOf, if_neg h]
  split_ifs with hlt
  · exact UInt64.le_rfl
  · exact UInt64.not_lt.mp hlt

/-- The additions lie within the request exactly when the evidence is in order. -/
theorem additions_inside_iff : (∀ x ∈ additions v, x.applies → Inside obs x.start x.end) ↔
    WellOrdered obs := by
  simp only [additions, List.forall_mem_cons, List.not_mem_nil, false_imp_iff, implies_true,
    and_true, ts_firstObs hperm hsorted, ts_lastObs hperm hsorted, ts_arrivalTime hperm hsorted,
    isSome_firstObs hperm, ts_batchTime hperm hsorted, inside_dispatch_iff]
  constructor
  · rintro ⟨-, hadm, hqueue, hbatch, hdispatch, htransfer, hprefill, htoken, hdecode, hspec, hretry,
      hrecovery, hcompletion⟩
    exact
      { moments := by simpa using ⟨hadm, hretry, hrecovery, hcompletion⟩
        spans := by
          simp only [List.forall_mem_cons, List.not_mem_nil, false_imp_iff, implies_true, and_true]
          exact ⟨hqueue, htransfer, hprefill, hdecode, hspec⟩
        batch := hbatch
        dispatch := hdispatch
        first_token := fun h => (inside_firstToken_iff (hdecode h)).mp (htoken h) }
  · intro h
    have hmoments := h.moments
    have hspans := h.spans
    simp only [List.forall_mem_cons, List.not_mem_nil, false_imp_iff, implies_true, and_true]
      at hmoments hspans
    obtain ⟨hadm, hretry, hrecovery, hcompletion⟩ := hmoments
    obtain ⟨hqueue, htransfer, hprefill, hdecode, hspec⟩ := hspans
    exact ⟨inside_arrivalOf, hadm, hqueue, h.batch, h.dispatch, htransfer, hprefill,
      fun hd => (inside_firstToken_iff (hdecode hd)).mpr (h.first_token hd), hdecode, hspec, hretry,
      hrecovery, hcompletion⟩

end Evidence
section Decomposition
variable [Platform]

/-- The exclusive times always add up to the covered time. -/
theorem sum_exclusive {t : RequestTrace} (hown : OwnPhases t.phases) :
    ((decomposeLatency t).components.map fun c => c.exclusiveNs.toNat).sum =
      (decomposeLatency t).coveredNs.toNat := by
  cases htotal : (t.getPhase .total).present with
  | false => simp [decomposeLatency_of_absent htotal]
  | true => exact (exactDecomposition hown htotal).sum

/-- Phases within the total cover no more than it. -/
theorem covered_le_total {t : RequestTrace} (hown : OwnPhases t.phases)
    (hwithin : Within t.phases (t.getPhase .total).start (t.getPhase .total).end) :
    (decomposeLatency t).coveredNs ≤ (decomposeLatency t).totalNs := by
  cases htotal : (t.getPhase .total).present with
  | false => simp [decomposeLatency_of_absent htotal]
  | true =>
    have hsub : (livePhases t.phases).toFinset.biUnion (instants t.phases) ⊆
        instants t.phases .total := by
      apply Finset.biUnion_subset.mpr
      intro p hp
      obtain ⟨hpresent, hne⟩ := (mem_livePhases t.phases p).mp (List.mem_toFinset.mp hp)
      obtain ⟨hstart, -, hend⟩ := hwithin p hne hpresent
      exact Finset.Ico_subset_Ico (UInt64.le_iff_toNat_le.mp hstart)
        (UInt64.le_iff_toNat_le.mp hend)
    rw [UInt64.le_iff_toNat_le, (exactDecomposition hown htotal).covered,
      (decomposeLatency_totals htotal).1, PhaseInterval.toNat_duration]
    calc _ ≤ (instants t.phases .total).card := Finset.card_le_card hsub
      _ = _ := Nat.card_Ico _ _

/-- The gap is what the covered time leaves of the total. -/
theorem covered_add_gap {t : RequestTrace}
    (hle : (decomposeLatency t).coveredNs ≤ (decomposeLatency t).totalNs) :
    (decomposeLatency t).coveredNs.toNat + (decomposeLatency t).gapNs.toNat =
      (decomposeLatency t).totalNs.toNat := by
  have hnat := UInt64.le_iff_toNat_le.mp hle
  cases htotal : (t.getPhase .total).present with
  | false => simp [decomposeLatency_of_absent htotal]
  | true =>
    rw [(decomposeLatency_totals htotal).2.2, if_pos hle, UInt64.toNat_sub_of_le _ _ hle]
    omega

/-- A decomposition is bounded when its phases stay within the total. -/
theorem boundedDecomposition_iff_within {t : RequestTrace} (hown : OwnPhases t.phases) :
    BoundedDecomposition t (decomposeLatency t) ↔
      Within t.phases (t.getPhase .total).start (t.getPhase .total).end := by
  constructor
  · intro h
    exact h.phases
  · intro h
    have hle := covered_le_total hown h
    exact ⟨h, sum_exclusive hown, hle, covered_add_gap hle⟩

/-- The decomposition stays within the request exactly when the evidence is in order. -/
theorem decomposition_within_request_iff (obs : List Observation) (rid : RequestId) :
    BoundedDecomposition (reconstructTrace obs rid)
      (decomposeLatency (reconstructTrace obs rid)) ↔ WellOrdered obs := by
  have hperm := sorter.perm traceLt obs
  have hsorted := sorter.ascending obs strictWeak_traceLt
  obtain ⟨-, hstart, hend⟩ := extractPhases_total (sorter.sort traceLt obs)
  have hown : OwnPhases (reconstructTrace obs rid).phases := by
    rw [reconstructTrace_phases]
    exact ownPhases_extractPhases _
  have hwithin : Within (reconstructTrace obs rid).phases
      ((reconstructTrace obs rid).getPhase .total).start
      ((reconstructTrace obs rid).getPhase .total).end ↔ WellOrdered obs := by
    rw [RequestTrace.getPhase, reconstructTrace_phases, hstart, hend, within_extractPhases_iff,
      ts_arrivalTime hperm hsorted, closingTime_eq hperm hsorted]
    exact additions_inside_iff hperm hsorted
  exact (boundedDecomposition_iff_within hown).trans hwithin

end Decomposition

/-- A request that decodes on after its completion. -/
def lateDecode : List Observation :=
  [{ id := ⟨⟨0, 1⟩⟩, type := .request, hasRecvTs := true, recvTs := 10 },
    { id := ⟨⟨0, 2⟩⟩, type := .decodeStepStart, hasRecvTs := true, recvTs := 15 },
    { id := ⟨⟨0, 3⟩⟩, type := .completion, hasRecvTs := true, recvTs := 20 },
    { id := ⟨⟨0, 4⟩⟩, type := .decodeStepEnd, hasRecvTs := true, recvTs := 40 }]

/-- It covers more than its total. -/
theorem not_bounded_lateDecode :
    let t := @reconstructTrace Platform.machine lateDecode {}
    let b := @decomposeLatency Platform.machine t
    b.totalNs = 10 ∧ b.coveredNs = 25 ∧ ¬ BoundedDecomposition t b := by
  intro t b
  have hid : (lateDecode.map Observation.id).Nodup := by decide
  have hascending : Ascending traceLt lateDecode := by
    unfold Ascending lateDecode
    decide
  have hsort : Platform.machine.sorter.sort traceLt lateDecode = lateDecode :=
    @sort_traceLt_eq_self lateDecode Platform.machine hid hascending
  have hphases : t.phases = extractPhases lateDecode := by
    rw [← hsort]
    exact @reconstructTrace_phases Platform.machine lateDecode {}
  have hpresent : (t.getPhase .total).present = true := by
    rw [RequestTrace.getPhase, hphases]
    decide
  obtain ⟨htotal, hcovered, -⟩ := @decomposeLatency_totals Platform.machine t hpresent
  replace htotal : b.totalNs = 10 := by
    rw [htotal, RequestTrace.getPhase, hphases]
    decide
  replace hcovered : b.coveredNs = 25 := by
    rw [hcovered, hphases]
    decide
  refine ⟨htotal, hcovered, fun h => ?_⟩
  have hle := h.covered
  rw [htotal, hcovered] at hle
  exact absurd hle (by decide)

end ServingObservatory
