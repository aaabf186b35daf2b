import ServingObservatory.Recovery

/-!
# Replay of recovered evidence

Attribution and explanation read the kinds and the fields of the evidence, which are
recovered. A replay of the recovered evidence returns when a replay of the original
does, with the same digests.
-/
namespace ServingObservatory
open Std BinaryWriter Sorting

section Sums
variable (l : List Observation)

@[simp] theorem sumU64_recovered (key : Str) :
    sumU64 (l.map Observation.recovered) key = sumU64 l key := by
  rw [sumU64, List.foldl_map]
  rfl

@[simp] theorem sumOf_recovered (type : ObsType) (key : Str) (default : UInt64) :
    sumOf (l.map Observation.recovered) type key default = sumOf l type key default := by
  rw [sumOf, List.foldl_map]
  rfl

@[simp] theorem maxOf_recovered (types : List ObsType) (key : Str) :
    maxOf (l.map Observation.recovered) types key = maxOf l types key := by
  rw [maxOf, List.foldl_map]
  rfl

variable [Platform]

@[simp] theorem gpuExecMs_recovered :
    gpuExecMs (l.map Observation.recovered) = gpuExecMs l := by
  rw [gpuExecMs, List.foldl_map]
  rfl

@[simp] theorem cpuExecNs_recovered :
    cpuExecNs (l.map Observation.recovered) = cpuExecNs l := by
  rw [cpuExecNs, List.foldl_map]
  rfl

end Sums

section Replaying
variable [Platform] (t : RequestTrace)

@[simp] theorem attributeResources_recovered :
    attributeResources t.recovered = attributeResources t := by
  have hgpu : t.recovered.evidence.any (fun o => o.fields.contains FieldKeys.gpuMs) =
      t.evidence.any fun o => o.fields.contains FieldKeys.gpuMs := by
    rw [RequestTrace.recovered, List.any_map]
    rfl
  have hevidence : t.recovered.evidence = t.evidence.map Observation.recovered := rfl
  have hdur : dur t.recovered = dur t := rfl
  have hphase : t.recovered.getPhase = t.getPhase := rfl
  simp only [attributeResources, hgpu, hdur, hphase]
  simp only [hevidence, countObs_recovered, sumU64_recovered, sumOf_recovered, maxOf_recovered,
    gpuExecMs_recovered, cpuExecNs_recovered, List.length_map]

@[simp] theorem explainRequest_recovered : explainRequest t.recovered = explainRequest t := by
  have hobs : t.recovered.evidence.flatMap observationStatements =
      t.evidence.flatMap observationStatements := by
    rw [RequestTrace.recovered, List.flatMap_map]
    rfl
  have hlatency : decomposeLatency t.recovered = decomposeLatency t := rfl
  simp only [explainRequest, hobs, hlatency, attributeResources_recovered]
  rfl

theorem addTrace_recovered (g : Aggregate) : g.addTrace t.recovered = g.addTrace t := by
  have hfold : ∀ g : Aggregate, t.recovered.evidence.foldl Aggregate.addObservation g =
      t.evidence.foldl Aggregate.addObservation g := by
    intro g
    rw [RequestTrace.recovered, List.foldl_map]
    rfl
  simp only [Aggregate.addTrace, attributeResources_recovered, hfold]

theorem fits_recovered : t.recovered.Fits ↔ t.Fits := by
  have htrace : canonicalTrace t.recovered = canonicalTrace t := rfl
  have hexpl : canonicalExplanation t.recovered = canonicalExplanation t := by
    rw [canonicalExplanation, explainRequest_recovered]
    rfl
  exact ⟨fun h => ⟨htrace ▸ h.1, hexpl ▸ h.2⟩, fun h => ⟨htrace.symm ▸ h.1, hexpl.symm ▸ h.2⟩⟩

variable {l : List Observation}

theorem evidenceForm_recovered (hid : (l.map Observation.id).Nodup) :
    evidenceForm (l.map Observation.recovered) = evidenceForm l := by
  have hsort : sorter.sort idLt (l.map Observation.recovered) =
      (sorter.sort idLt l).map Observation.recovered := by
    refine sorter.sort_map Observation.recovered strictWeak_idLt strictWeak_idLt
      (fun _ _ => rfl) (separates_idLt ?_)
    rw [List.map_map]
    exact hid
  simp only [evidenceForm, hsort, List.map_map, List.flatMap_map, Function.comp_apply,
    WireObservation.entry_recovered, List.length_map]

theorem replayable_recovered (hid : (l.map Observation.id).Nodup) :
    Replayable (l.map Observation.recovered) ↔ Replayable l := by
  have hevidence : (∀ o ∈ l.map Observation.recovered, o.FitsEntry) ↔ ∀ o ∈ l, o.FitsEntry := by
    simp only [List.forall_mem_map, Observation.fitsEntry_recovered]
  have htraces : (∀ t ∈ tracesOf (l.map Observation.recovered), t.Fits) ↔
      ∀ t ∈ tracesOf l, t.Fits := by
    simp only [tracesOf_recovered hid, List.forall_mem_map, fits_recovered]
  exact ⟨fun h => ⟨hevidence.mp h.1, htraces.mp h.2⟩, fun h => ⟨hevidence.mpr h.1, htraces.mpr h.2⟩⟩

/-- The four digests of a result. -/
def ReplayResult.digests (r : ReplayResult) : List Digest :=
  [r.evidenceDigest, r.traceDigest, r.explanationDigest, r.aggregateDigest]

theorem digests_replayOf_recovered (obsCount : UInt64) (evidence : Bytes)
    (traces : List RequestTrace) :
    (replayOf obsCount evidence (traces.map RequestTrace.recovered)).digests =
      (replayOf obsCount evidence traces).digests := by
  have htrace : (traces.map RequestTrace.recovered).flatMap (fun t => prefixed (canonicalTrace t)) =
      traces.flatMap fun t => prefixed (canonicalTrace t) := by
    rw [List.flatMap_map]
    rfl
  have hexpl : (traces.map RequestTrace.recovered).flatMap
      (fun t => prefixed (canonicalExplanation t)) =
        traces.flatMap fun t => prefixed (canonicalExplanation t) := by
    simp only [List.flatMap_map, canonicalExplanation, explainRequest_recovered]
  have hlatency : (traces.map RequestTrace.recovered).map totalLatencyOf =
      traces.map totalLatencyOf := by
    rw [List.map_map]
    rfl
  have hfold : (traces.map RequestTrace.recovered).foldl Aggregate.addTrace {} =
      traces.foldl Aggregate.addTrace {} := by
    simp only [List.foldl_map, addTrace_recovered]
  simp only [ReplayResult.digests, replayOf, htrace, hexpl, hlatency, hfold, List.length_map]

/-- Replay of the recovered evidence returns the same digests. -/
theorem replay_recovered (hid : (l.map Observation.id).Nodup) {r : ReplayResult}
    (hr : replay l = .ok r) :
    ∃ r', replay (l.map Observation.recovered) = .ok r' ∧ r'.digests = r.digests := by
  obtain ⟨hfits, rfl⟩ := (replay_eq_ok_iff l r).mp hr
  refine ⟨_, (replay_eq_ok_iff _ _).mpr ⟨(replayable_recovered hid).mpr hfits, rfl⟩, ?_⟩
  rw [List.length_map, evidenceForm_recovered hid, tracesOf_recovered hid,
    digests_replayOf_recovered]

end Replaying
end ServingObservatory
