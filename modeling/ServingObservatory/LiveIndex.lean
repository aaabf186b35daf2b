import ServingObservatory.CoordinatorEvidence
import ServingObservatory.JsonSize
import ServingObservatory.ReplayReturns

/-!
# The live index and replay

The coordinator groups evidence by request as it arrives, and replay groups it again
from the accepted map. Both groupings hold the same observations of each request. A
trace that fits its length has few events, so its ordinals are exact.
-/
namespace ServingObservatory
open Std Sorting

/-- What a replay of the accepted evidence has to do with the index of the state. -/
structure LiveIndexAgrees [Platform] (c : Coordinator) (r : ReplayResult) : Prop where
  requests : r.traces.map RequestTrace.requestId = c.byRequest.keys
  increasing : (r.traces.map RequestTrace.requestId).Pairwise fun a b => a.raw.lt b.raw = true
  evidence : ∀ t ∈ r.traces, t.evidence.Perm (c.byRequest.getD t.requestId [])
  sorted : ∀ t ∈ r.traces, t.evidence.Pairwise fun a b => traceLt a b = true
  ordinals : ∀ t ∈ r.traces,
    t.timeline.map (fun e => e.ordinal.toNat) = List.range t.evidence.length
  events : ∀ t ∈ r.traces, ∀ i : ℕ, t.timeline[i]? = t.evidence[i]?.map (traceEvent · i)
  null_requests : ∀ o ∈ c.allAccepted,
    o.requestId.isNull = true ↔ ∀ t ∈ r.traces, o ∉ t.evidence
  obs_count : r.obsCount = UInt64.ofNat c.acceptedCount

theorem groupKey_eq_some {o : Observation} {rid : RequestId} :
    groupKey o = some rid ↔ rid.isNull = false ∧ o.requestId = rid := by
  unfold groupKey
  constructor
  · intro h
    split_ifs at h with hnull
    cases h
    exact ⟨by simpa using hnull, rfl⟩
  · rintro ⟨hnull, rfl⟩
    simp [hnull]

section Index
variable {log : List (Observation × IngestResult)} {c : Coordinator}

theorem Accounted.groupOf_perm (h : Accounted log c) {rid : RequestId} (hrid : rid.isNull = false) :
    (groupOf c.allAccepted rid).Perm (c.byRequest.getD rid []) := by
  have hkey : (fun o => decide (groupKey o = some rid)) = fun o => decide (o.requestId = rid) := by
    funext o
    simp [groupKey_eq_some, hrid]
  rw [h.by_request rid hrid, groupOf, hkey]
  exact h.accepted_perm.filter _

/-- A request is indexed exactly when an accepted observation names it. -/
theorem Accounted.mem_index (h : Accounted log c) (rid : RequestId) :
    rid ∈ c.byRequest ↔ ∃ o ∈ c.allAccepted, groupKey o = some rid := by
  constructor
  · intro hmem
    obtain ⟨l, hl⟩ := Option.isSome_iff_exists.mp (ExtTreeMap.isSome_getElem?_iff_mem.mpr hmem)
    have hrid : rid.isNull = false := by
      by_contra hnull
      rw [h.null_absent rid (by simpa using hnull)] at hl
      cases hl
    have hget : c.byRequest.getD rid [] = l := by
      rw [ExtTreeMap.getD_eq_getD_getElem?, hl]
      rfl
    obtain ⟨o, ho⟩ := List.exists_mem_of_ne_nil l (h.index_nonempty rid l hl)
    rw [← hget, ← (h.groupOf_perm hrid).mem_iff, groupOf, List.mem_filter] at ho
    exact ⟨o, ho.1, by simpa using ho.2⟩
  · rintro ⟨o, ho, hkey⟩
    obtain ⟨hrid, -⟩ := groupKey_eq_some.mp hkey
    have hmem : o ∈ c.byRequest.getD rid [] := by
      rw [← (h.groupOf_perm hrid).mem_iff, groupOf, List.mem_filter]
      exact ⟨ho, by simpa using hkey⟩
    by_contra hnot
    rw [ExtTreeMap.getD_eq_fallback hnot] at hmem
    simp at hmem

theorem Accounted.requestsOf_eq (h : Accounted log c) :
    requestsOf c.allAccepted = c.byRequest.keys := by
  apply OrderedMap.keys_congr
  intro rid
  rw [mem_groupByRequest, h.mem_index]

theorem Accounted.nodup_allAccepted (h : Accounted log c) :
    (c.allAccepted.map Observation.id).Nodup :=
  (h.accepted_perm.map Observation.id).nodup_iff.mpr h.accepted_nodup

end Index

/-- Noting the observations changes neither the request nor the evidence. -/
theorem foldl_note (obs : List Observation) (tr : RequestTrace) :
    (obs.foldl RequestTrace.note tr).requestId = tr.requestId ∧
      (obs.foldl RequestTrace.note tr).evidence = tr.evidence := by
  induction obs generalizing tr with
  | nil => exact ⟨rfl, rfl⟩
  | cons o obs ih => exact ih (tr.note o)

section Traces
variable [Platform]

@[simp] theorem reconstructTrace_requestId (l : List Observation) (rid : RequestId) :
    (reconstructTrace l rid).requestId = rid := (foldl_note _ _).1

@[simp] theorem reconstructTrace_evidence (l : List Observation) (rid : RequestId) :
    (reconstructTrace l rid).evidence = sorter.sort traceLt l := (foldl_note _ _).2

@[simp] theorem reconstructTrace_timeline (l : List Observation) (rid : RequestId) :
    (reconstructTrace l rid).timeline = timelineOf (sorter.sort traceLt l) := rfl

@[simp] theorem reconstructTrace_phases (l : List Observation) (rid : RequestId) :
    (reconstructTrace l rid).phases = extractPhases (sorter.sort traceLt l) := rfl

/-- Evidence of distinct identities is strictly increasing after the sort. -/
theorem pairwise_sort_traceLt {l : List Observation} (hid : (l.map Observation.id).Nodup) :
    (sorter.sort traceLt l).Pairwise fun a b => traceLt a b = true := by
  have hperm := sorter.perm traceLt l
  have hnodup : (sorter.sort traceLt l).Nodup :=
    hperm.nodup_iff.mpr (List.Nodup.of_map Observation.id hid)
  have hsep := (separates_traceLt hid).perm hperm.symm
  refine List.Pairwise.imp_of_mem ?_ ((sorter.ascending l strictWeak_traceLt).and hnodup)
  rintro a b ha hb ⟨hba, hne⟩
  by_contra hab
  exact hne (hsep a ha b hb (by simpa using hab) hba)

/-- The timeline of a trace that fits its length has fewer than 2^32 events. -/
theorem RequestTrace.Fits.length_timeline {t : RequestTrace} (h : t.Fits) :
    t.timeline.length < 2 ^ 32 := by
  let tail : List (Str × Json) :=
    [(lit "outcome", .string t.outcome.name),
      (lit "terminal_reason", .string t.terminalReason), (lit "epoch_min", .uint t.minEpoch),
      (lit "epoch_max", .uint t.maxEpoch),
      (lit "spans_multiple_epochs", .bool t.spansMultipleEpochs),
      (lit "timeline", .array (t.timeline.map TraceEvent.toJson)),
      (lit "phases", phasesToJson t.phases),
      (lit "boots", .array (t.boots.map fun b => .string b.toHex)),
      (lit "src_gens", .array (t.srcGens.map .uint)),
      (lit "obs_gens", .array (t.obsGens.map .uint))]
  have hkeys : (tail.map Prod.fst).Nodup := by
    simp only [tail, List.map_cons, List.map_nil]
    decide
  have hmember : (traceToJson t).HasMember (lit "timeline")
      (.array (t.timeline.map TraceEvent.toJson)) := by
    unfold traceToJson
    apply Json.hasMember_setAll _ hkeys
    simp [tail]
  have hitems := Json.length_array_ge (t.timeline.map TraceEvent.toJson)
  rw [List.length_map] at hitems
  exact (hitems.trans hmember.length_le).trans_lt h.trace

omit [Platform] in
/-- Ordinals below 2^32 are not cut off. -/
theorem ordinals_timelineOf {obs : List Observation} (h : (timelineOf obs).length < 2 ^ 32) :
    (timelineOf obs).map (fun e => e.ordinal.toNat) = List.range obs.length := by
  rw [timelineOf, List.length_map, List.length_zipIdx] at h
  apply List.ext_getElem
  · simp [timelineOf]
  · intro i hi hi'
    have hlt : i < 2 ^ 32 := (List.length_range ▸ hi').trans h
    simpa [timelineOf, traceEvent] using hlt

/-- A trace of the evidence is that of a group. -/
theorem exists_group_of_mem_tracesOf {l : List Observation} {t : RequestTrace}
    (ht : t ∈ tracesOf l) :
    ∃ rid, rid.isNull = false ∧ t = reconstructTrace (groupOf l rid) rid := by
  rw [tracesOf_eq, List.mem_map] at ht
  obtain ⟨rid, hrid, rfl⟩ := ht
  have hmem : rid ∈ groupByRequest l := ExtTreeMap.mem_keys.mp hrid
  obtain ⟨o, -, hkey⟩ := (mem_groupByRequest _ rid).mp hmem
  exact ⟨rid, (groupKey_eq_some.mp hkey).1, rfl⟩

/-- The observations that no trace holds are those without a request. -/
theorem isNull_iff_not_traced {l : List Observation} {o : Observation} (ho : o ∈ l) :
    o.requestId.isNull = true ↔ ∀ t ∈ tracesOf l, o ∉ t.evidence := by
  constructor
  · intro hnull t ht hmem
    obtain ⟨rid, hrid, rfl⟩ := exists_group_of_mem_tracesOf ht
    rw [reconstructTrace_evidence, sorter.mem_sort, groupOf, List.mem_filter] at hmem
    obtain ⟨hrid', heq⟩ := groupKey_eq_some.mp (of_decide_eq_true hmem.2)
    rw [← heq, hnull] at hrid'
    cases hrid'
  · intro hnone
    by_contra hnull
    have hkey : groupKey o = some o.requestId := groupKey_eq_some.mpr ⟨by simpa using hnull, rfl⟩
    have hrid : o.requestId ∈ requestsOf l :=
      ExtTreeMap.mem_keys.mpr ((mem_groupByRequest _ _).mpr ⟨o, ho, hkey⟩)
    refine hnone (reconstructTrace (groupOf l o.requestId) o.requestId) ?_ ?_
    · rw [tracesOf_eq]
      exact List.mem_map_of_mem hrid
    · rw [reconstructTrace_evidence, sorter.mem_sort, groupOf, List.mem_filter]
      exact ⟨ho, by simpa using hkey⟩

section Agreement
variable {log : List (Observation × IngestResult)} {c : Coordinator}

theorem Accounted.requestIds_eq (h : Accounted log c) :
    (tracesOf c.allAccepted).map RequestTrace.requestId = c.byRequest.keys := by
  rw [tracesOf_eq, List.map_map, ← h.requestsOf_eq]
  exact (List.map_congr_left fun rid _ => reconstructTrace_requestId _ rid).trans (List.map_id _)

theorem Accounted.agrees (h : Accounted log c) {r : ReplayResult}
    (hr : replay c.allAccepted = .ok r) : LiveIndexAgrees c r := by
  obtain ⟨hfits, rfl⟩ := (replay_eq_ok_iff _ r).mp hr
  refine
    { requests := h.requestIds_eq
      increasing := ?_
      evidence := fun t ht => ?_
      sorted := fun t ht => ?_
      ordinals := fun t ht => ?_
      events := fun t ht i => ?_
      null_requests := fun o ho => isNull_iff_not_traced ho
      obs_count := ?_ }
  · change ((tracesOf c.allAccepted).map RequestTrace.requestId).Pairwise _
    rw [h.requestIds_eq]
    refine (c.byRequest.ordered_keys).imp fun {a b} hab => ?_
    rw [Id128.lt_eq_isLT]
    exact Ordering.isLT_iff_eq_lt.mpr hab
  · obtain ⟨rid, hrid, rfl⟩ := exists_group_of_mem_tracesOf ht
    rw [reconstructTrace_evidence, reconstructTrace_requestId]
    exact (sorter.perm traceLt _).trans (h.groupOf_perm hrid)
  · obtain ⟨rid, -, rfl⟩ := exists_group_of_mem_tracesOf ht
    rw [reconstructTrace_evidence]
    exact pairwise_sort_traceLt (nodup_groupOf h.nodup_allAccepted rid)
  · have hlen := (hfits.traces t ht).length_timeline
    obtain ⟨rid, -, rfl⟩ := exists_group_of_mem_tracesOf ht
    rw [reconstructTrace_timeline] at hlen ⊢
    rw [reconstructTrace_evidence]
    exact ordinals_timelineOf hlen
  · obtain ⟨rid, -, rfl⟩ := exists_group_of_mem_tracesOf ht
    simp [timelineOf, List.getElem?_zipIdx, Function.comp_def]
  · change UInt64.ofNat c.allAccepted.length = _
    rw [Coordinator.allAccepted, List.length_map, ExtTreeMap.length_toList]
    rfl

end Agreement

/-- In every state reached, replay returns what agrees with the index of the state,
unless a length prefix is too short for a part of it. -/
theorem replay_live_index (ops : List CoordinatorOp) :
    (∃ r, replay (coordinatorMachine.run {} ops).allAccepted = .ok r ∧
      LiveIndexAgrees (coordinatorMachine.run {} ops) r) ↔
        Replayable (coordinatorMachine.run {} ops).allAccepted := by
  rw [← exists_replay_iff]
  constructor
  · rintro ⟨r, hr, -⟩
    exact ⟨r, hr⟩
  · rintro ⟨r, hr⟩
    exact ⟨r, hr, (accounted_run ops).agrees hr⟩

end Traces

/-- The state after a HELLO and an observation that the record of the HELLO admits. -/
theorem run_hello_ingest (hello : HelloPayload) (o : Observation)
    (hkey : keyOf hello.source hello.worker = keyOf o.source o.worker)
    (hadm : (SourceAuthority.install (Coordinator.helloObservation hello) hello.epoch 0).Admits o) :
    coordinatorMachine.run {} [.registerHello hello, .ingest o] =
      (coordinatorMachine.next {} (.registerHello hello)).admitted o
        (SourceAuthority.install (Coordinator.helloObservation hello) hello.epoch 0) := by
  have hslot : (coordinatorMachine.next {} (.registerHello hello)).registry.byKey[
      keyOf o.source o.worker]? =
        some (SourceAuthority.install (Coordinator.helloObservation hello) hello.epoch 0) := by
    rw [coordinatorMachine_next_registerHello, ← hkey, ← hello.registration_key,
      registryMachine_slot_self]
    simp [HelloPayload.registration, RegistryOp.onSlot]
  have hnew : (coordinatorMachine.next {} (.registerHello hello)).accepted[o.id]? = none := by
    simp
  rw [Machine.run_cons, Machine.run_cons, Machine.run_nil, coordinatorMachine_next_ingest,
    Coordinator.ingest_of_admits hnew hslot hadm]

theorem allAccepted_hello_ingest (hello : HelloPayload) (o : Observation)
    (hkey : keyOf hello.source hello.worker = keyOf o.source o.worker)
    (hadm : (SourceAuthority.install (Coordinator.helloObservation hello) hello.epoch 0).Admits o) :
    (coordinatorMachine.run {} [.registerHello hello, .ingest o]).allAccepted = [o] := by
  have hnew : (coordinatorMachine.next {} (.registerHello hello)).accepted[o.id]? = none := by
    simp
  have hperm := (OrderedMap.toList_insert_perm
    (coordinatorMachine.next {} (.registerHello hello)).accepted o hnew).map Prod.snd
  rw [run_hello_ingest hello o hkey hadm]
  exact List.perm_singleton.mp hperm

/-- A clock domain of 2^32 bytes. -/
def overlongClock : Observation :=
  { id := ⟨⟨0, 1⟩⟩, epoch := 1, seq := 1, clockDomain := List.replicate (2 ^ 32) 0 }

/-- Ingest admits the overlong clock domain, and then replay throws. -/
theorem not_replay_overlongClock :
    (coordinatorMachine.run {} [.registerHello { epoch := 1 }, .ingest overlongClock]).allAccepted =
      [overlongClock] ∧
    ¬ ∃ r, @replay Platform.machine (coordinatorMachine.run {}
        [.registerHello { epoch := 1 }, .ingest overlongClock]).allAccepted = .ok r ∧
      @LiveIndexAgrees Platform.machine (coordinatorMachine.run {}
        [.registerHello { epoch := 1 }, .ingest overlongClock]) r := by
  let _ := Platform.machine
  have hadm : (SourceAuthority.install (Coordinator.helloObservation { epoch := 1 }) 1 0).Admits
      overlongClock := ⟨by decide, rfl, rfl, rfl, .inl (by decide)⟩
  have haccepted := allAccepted_hello_ingest { epoch := 1 } overlongClock rfl hadm
  refine ⟨haccepted, ?_⟩
  rintro ⟨r, hr, -⟩
  rw [haccepted, replay_eq_ok_iff] at hr
  have hclock := (hr.1.evidence overlongClock (by simp)).1.clockDomain
  rw [overlongClock, List.length_replicate] at hclock
  exact lt_irrefl _ hclock

end ServingObservatory
