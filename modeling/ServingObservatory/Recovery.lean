import ServingObservatory.ReplayReturns

/-!
# What is recovered of evidence

A written observation is read back with the defaults in its absent parts. Replay looks
only at the parts that are present, so the recovered evidence has the same digests.
-/
namespace ServingObservatory
open Std BigEndian Decoding BinaryWriter BinaryReader Sorting

/-- The observation that is read back after it was written. -/
def Observation.recovered (o : Observation) : Observation :=
  { o with
    obsTs := if o.hasObsTs then o.obsTs else 0
    recvTs := if o.hasRecvTs then o.recvTs else 0
    health := if o.hasHealth then o.health else .unknown
    confidence := if o.hasConfidence then o.confidence else ⟨0⟩ }

theorem Observation.recovered_eq {o : Observation} (h : o.AbsentAtDefault) : o.recovered = o := by
  have hobs : (if o.hasObsTs then o.obsTs else 0) = o.obsTs := by
    cases hp : o.hasObsTs with
    | true => rfl
    | false => exact (h.obsTs hp).symm
  have hrecv : (if o.hasRecvTs then o.recvTs else 0) = o.recvTs := by
    cases hp : o.hasRecvTs with
    | true => rfl
    | false => exact (h.recvTs hp).symm
  have hhealth : (if o.hasHealth then o.health else .unknown) = o.health := by
    cases hp : o.hasHealth with
    | true => rfl
    | false => exact (h.health hp).symm
  have hconf : (if o.hasConfidence then o.confidence else ⟨0⟩) = o.confidence := by
    cases hp : o.hasConfidence with
    | true => rfl
    | false => exact (h.confidence hp).symm
  rw [recovered, hobs, hrecv, hhealth, hconf]

theorem Observation.absentAtDefault_recovered (o : Observation) : o.recovered.AbsentAtDefault where
  obsTs hp := if_neg (Bool.eq_false_iff.mp hp)
  recvTs hp := if_neg (Bool.eq_false_iff.mp hp)
  health hp := if_neg (Bool.eq_false_iff.mp hp)
  confidence hp := if_neg (Bool.eq_false_iff.mp hp)

theorem WireSections.spell_recovered (o : Observation) :
    (WireObservation.ofObservation o.recovered).sections.spell =
      (WireObservation.ofObservation o).sections.spell := by
  obtain ⟨h₀, h₁, h₂, h₃, -⟩ := hasPart_presence o
  have hpart : ∀ {α : Type} (c : Bool) (x y : α) (f : α → Bytes),
      (if c then f (if c then x else y) else []) = if c then f x else [] := by
    intro α c x y f
    cases c <;> rfl
  have hsections : (WireObservation.ofObservation o.recovered).sections =
      ⟨presence o, if o.hasObsTs then o.obsTs else 0, if o.hasRecvTs then o.recvTs else 0,
        (if o.hasHealth then o.health else .unknown).code,
        if o.hasConfidence then o.confidence else ⟨0⟩, o.provenance.code⟩ := rfl
  rw [hsections]
  simp only [WireSections.spell, WireObservation.ofObservation, h₀, h₁, h₂, h₃]
  rw [hpart _ _ _ fun v : UInt64 => bytes 8 v.toNat, hpart _ _ _ fun v : UInt64 => bytes 8 v.toNat,
    hpart _ _ _ fun h : SourceHealth => [h.code], hpart _ _ _ fun v : F32 => bytes 4 v.bits.toNat]

/-- Absent parts are not written. -/
theorem WireObservation.spell_recovered (o : Observation) :
    (ofObservation o.recovered).spell = (ofObservation o).spell := by
  rw [spell, spell, WireSections.spell_recovered]
  rfl

theorem WireObservation.entry_recovered (o : Observation) :
    (ofObservation o.recovered).entry = (ofObservation o).entry := by
  rw [entry, spell_recovered]
  rfl

theorem Observation.fitsEntry_recovered {o : Observation} :
    o.recovered.FitsEntry ↔ o.FitsEntry := by
  rw [FitsEntry, FitsEntry, WireObservation.spell_recovered]
  exact and_congr_left' ⟨fun h => ⟨h.1, h.2, h.3⟩, fun h => ⟨h.1, h.2, h.3⟩⟩

@[simp] theorem obsTime_recovered (o : Observation) : obsTime o.recovered = obsTime o := by
  cases hrecv : o.hasRecvTs <;> cases hobs : o.hasObsTs <;>
    simp [obsTime, Observation.recovered, hrecv, hobs]

theorem traceLt_recovered (a b : Observation) :
    traceLt a.recovered b.recovered = traceLt a b := by
  simp only [traceLt, obsTime_recovered]
  rfl

section Selection
variable (l : List Observation) (t : ObsType)

@[simp] theorem firstObs_recovered : firstObs (l.map Observation.recovered) t =
    (firstObs l t).map Observation.recovered := by
  rw [firstObs, List.find?_map]
  rfl

@[simp] theorem lastObs_recovered : lastObs (l.map Observation.recovered) t =
    (lastObs l t).map Observation.recovered := by
  rw [lastObs, ← List.map_reverse, List.find?_map]
  rfl

@[simp] theorem countObs_recovered :
    countObs (l.map Observation.recovered) t = countObs l t := by
  rw [countObs, List.foldl_map]
  rfl

end Selection

@[simp] theorem tdom_recovered (o : Option Observation) :
    tdom (o.map Observation.recovered) = tdom o := by
  cases o with
  | none => rfl
  | some o => exact obsTime_recovered o

namespace PhaseTable
variable (t : PhaseTable) (p : Phase) (o o' o'' : Option Observation) (detail : Str)

@[simp] theorem addMoment_recovered :
    t.addMoment p (o.map Observation.recovered) detail = t.addMoment p o detail := by
  cases o with
  | none => rfl
  | some x =>
    simp only [Option.map_some, addMoment, obsTime_recovered]
    rfl

@[simp] theorem addSpan_recovered : t.addSpan p (o.map Observation.recovered)
    (o'.map Observation.recovered) detail = t.addSpan p o o' detail := by
  cases o with
  | none => rfl
  | some x =>
    cases o' with
    | none => rfl
    | some y =>
      simp only [Option.map_some, addSpan, obsTime_recovered]
      rfl

@[simp] theorem addArrival_recovered (a : TimedObs) :
    t.addArrival a (o.map Observation.recovered) = t.addArrival a o := by
  cases o <;> rfl

@[simp] theorem addBatchWait_recovered : t.addBatchWait (o.map Observation.recovered)
    (o'.map Observation.recovered) (o''.map Observation.recovered) = t.addBatchWait o o' o'' := by
  have hfirst : (o.map Observation.recovered <|> o'.map Observation.recovered) =
      (o <|> o').map Observation.recovered := by
    cases o <;> rfl
  unfold addBatchWait
  rw [hfirst]
  generalize (o <|> o') = first
  cases first with
  | none => rfl
  | some x =>
    cases o'' with
    | none => rfl
    | some d =>
      simp only [Option.map_some, obsTime_recovered]
      rfl

@[simp] theorem addDispatch_recovered : t.addDispatch (o.map Observation.recovered)
    (o'.map Observation.recovered) (o''.map Observation.recovered) = t.addDispatch o o' o'' := by
  cases o with
  | none => rfl
  | some d =>
    simp only [Option.map_some, addDispatch, obsTime_recovered, tdom_recovered]
    rfl

@[simp] theorem addTokens_recovered (pe : TimedObs) (steps : UInt64) :
    t.addTokens pe (o.map Observation.recovered) (o'.map Observation.recovered) steps =
      t.addTokens pe o o' steps := by
  cases o with
  | none => rfl
  | some x =>
    cases o' with
    | none => rfl
    | some y =>
      simp only [Option.map_some, addTokens, obsTime_recovered]
      rfl

@[simp] theorem addTotal_recovered (a c : TimedObs) (l : List Observation) :
    t.addTotal a c (l.map Observation.recovered) = t.addTotal a c l := by
  simp only [addTotal, List.isEmpty_map, List.getLast?_map, tdom_recovered]

end PhaseTable

@[simp] theorem arrivalTime_recovered (l : List Observation) :
    arrivalTime (l.map Observation.recovered) = arrivalTime l := by
  simp only [arrivalTime, firstObs_recovered, tdom_recovered, List.isEmpty_map, List.head?_map]

@[simp] theorem completionTime_recovered (l : List Observation) :
    completionTime (l.map Observation.recovered) = completionTime l := by
  simp only [completionTime, lastObs_recovered, tdom_recovered, List.isEmpty_map, List.getLast?_map]

@[simp] theorem extractPhases_recovered (l : List Observation) :
    extractPhases (l.map Observation.recovered) = extractPhases l := by
  simp only [extractPhases, firstObs_recovered, lastObs_recovered, countObs_recovered,
    arrivalTime_recovered, completionTime_recovered, tdom_recovered,
    PhaseTable.addMoment_recovered, PhaseTable.addSpan_recovered, PhaseTable.addArrival_recovered,
    PhaseTable.addBatchWait_recovered, PhaseTable.addDispatch_recovered,
    PhaseTable.addTokens_recovered, PhaseTable.addTotal_recovered]

@[simp] theorem outcomeOf_recovered (l : List Observation) :
    outcomeOf (l.map Observation.recovered) = outcomeOf l := by
  simp only [outcomeOf, firstObs_recovered, lastObs_recovered, countObs_recovered,
    Option.isNone_map, Option.isSome_map]
  cases lastObs l .completion <;> cases firstObs l .cancel <;> cases firstObs l .failure <;> rfl

@[simp] theorem timelineOf_recovered (l : List Observation) :
    timelineOf (l.map Observation.recovered) = timelineOf l := by
  simp only [timelineOf, List.zipIdx_map, List.map_map]
  refine List.map_congr_left fun p _ => ?_
  simp only [Function.comp_apply, Prod.map, traceEvent, obsTime_recovered]
  rfl

/-- The trace with the recovered evidence. -/
def RequestTrace.recovered (t : RequestTrace) : RequestTrace :=
  { t with evidence := t.evidence.map Observation.recovered }

theorem foldl_note_recovered (l : List Observation) (tr : RequestTrace) :
    (l.map Observation.recovered).foldl RequestTrace.note tr.recovered =
      (l.foldl RequestTrace.note tr).recovered := by
  induction l generalizing tr with
  | nil => rfl
  | cons o l ih => exact ih (tr.note o)

theorem groupOf_recovered (l : List Observation) (rid : RequestId) :
    groupOf (l.map Observation.recovered) rid = (groupOf l rid).map Observation.recovered := by
  rw [groupOf, List.filter_map]
  rfl

theorem requestsOf_recovered (l : List Observation) :
    requestsOf (l.map Observation.recovered) = requestsOf l := by
  apply OrderedMap.keys_congr
  intro rid
  simp only [mem_groupByRequest, List.mem_map, exists_exists_and_eq_and]
  rfl

section Replaying
variable [Platform]

theorem sort_traceLt_recovered {l : List Observation} (hid : (l.map Observation.id).Nodup) :
    sorter.sort traceLt (l.map Observation.recovered) =
      (sorter.sort traceLt l).map Observation.recovered := by
  refine sorter.sort_map Observation.recovered strictWeak_traceLt strictWeak_traceLt
    traceLt_recovered (separates_traceLt ?_)
  rw [List.map_map]
  exact hid

theorem reconstructTrace_recovered {l : List Observation} (hid : (l.map Observation.id).Nodup)
    (rid : RequestId) : reconstructTrace (l.map Observation.recovered) rid =
      (reconstructTrace l rid).recovered := by
  have hnote := foldl_note_recovered (sorter.sort traceLt l)
    { requestId := rid, traceId := ⟨Id128.derive 0x5154 rid.raw.toBytes⟩,
      evidence := sorter.sort traceLt l }
  simp only [RequestTrace.recovered] at hnote ⊢
  simp only [reconstructTrace, sort_traceLt_recovered hid, hnote, timelineOf_recovered,
    extractPhases_recovered, outcomeOf_recovered]

theorem tracesOf_recovered {l : List Observation} (hid : (l.map Observation.id).Nodup) :
    tracesOf (l.map Observation.recovered) = (tracesOf l).map RequestTrace.recovered := by
  rw [tracesOf_eq, tracesOf_eq, requestsOf_recovered, List.map_map]
  refine List.map_congr_left fun rid _ => ?_
  rw [groupOf_recovered, reconstructTrace_recovered (nodup_groupOf hid rid), Function.comp_apply]

end Replaying
end ServingObservatory
