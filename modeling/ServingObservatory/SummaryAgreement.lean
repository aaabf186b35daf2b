import ServingObservatory.AggregateCounts
import ServingObservatory.Comparison
import ServingObservatory.Correlation

/-!
# Four summaries of the same events

Attribution adds up the counts that hits and misses carry, and the tokens that were
accepted. Comparison, correlation and the replay aggregate count the events. The figures
agree when, for every request, what the counts exceed one by vanishes modulo 2^64.
-/
namespace ServingObservatory
open Std WordSums

/-- What the values of a field exceed the number of events by, modulo 2^64. -/
def excess (ev : List Observation) (type : ObsType) (key : Str) (default : UInt64) : UInt64 :=
  ev.foldl (fun s o => if o.type = type then s + (o.u64Field key default - 1) else s) 0

/-- The counted values of some evidence add up to the numbers of the events. -/
structure UnitCounts (ev : List Observation) : Prop where
  kv_hits : excess ev .kvHit FieldKeys.count 1 = 0
  kv_misses : excess ev .kvMiss FieldKeys.count 1 = 0
  kernel_hits : excess ev .kernelHit FieldKeys.count 1 = 0
  spec_accepted : excess ev .speculationVerify FieldKeys.acceptedTokens 0 = 0

/-- The figures of a comparison are those of the attribution of its traces. -/
structure ComparisonAgrees [Platform] (t t' : RequestTrace) : Prop where
  kv_hits : (compareTraces t t').kvHitsA = (attributeResources t).kvHits ∧
    (compareTraces t' t).kvHitsB = (attributeResources t).kvHits
  kernel_hits : (compareTraces t t').kernelHitsA = (attributeResources t).kernelHits ∧
    (compareTraces t' t).kernelHitsB = (attributeResources t).kernelHits
  spec_accepted : (compareTraces t t').specAcceptedA = (attributeResources t).specAccepted ∧
    (compareTraces t' t).specAcceptedB = (attributeResources t).specAccepted

/-- The sum of a figure of attribution over some traces, modulo 2^64. -/
def attributed [Platform] (figure : ResourceAttribution → UInt64) (ts : List RequestTrace) :
    UInt64 := UInt64.ofNat (total (fun t => figure (attributeResources t)) ts)

/-- All summaries of the requests in some evidence report the same figures. -/
structure SummariesAgree [Platform] (l : List Observation) : Prop where
  compare : ∀ t ∈ tracesOf l, ∀ t', ComparisonAgrees t t'
  correlate : ∀ key, ∀ g ∈ correlateBy (tracesOf l) key,
    let ts := (tracesOf l).filter fun t => key t = g.key
    g.kvHits = attributed (·.kvHits) ts ∧ g.kvMisses = attributed (·.kvMisses) ts ∧
      g.kernelHits = attributed (·.kernelHits) ts
  aggregate : (aggregateOf l).kvHits = attributed (·.kvHits) (tracesOf l) ∧
    (aggregateOf l).kvMisses = attributed (·.kvMisses) (tracesOf l)

section Excess
variable (ev : List Observation) (type : ObsType) (key : Str) (default : UInt64)

theorem countObs_eq : countObs ev type = UInt64.ofNat (ev.countP fun o => o.type = type) := by
  have hstep : ∀ (c : UInt64) (o : Observation), (if o.type == type then c + 1 else c) =
      c + UInt64.ofNat (if o.type = type then 1 else 0) := by
    intro c o
    by_cases h : o.type = type <;> simp [h]
  have hfold : countObs ev type =
      0 + UInt64.ofNat (ev.map fun o => if o.type = type then 1 else 0).sum :=
    foldl_part id hstep ev 0
  rw [hfold, sum_ite_one fun o : Observation => o.type = type, UInt64.zero_add]

/-- A sum of values is the number of the events and what the values exceed it by. -/
theorem sumOf_eq : sumOf ev type key default = countObs ev type + excess ev type key default := by
  have hfold : ∀ s c e : UInt64, s = c + e →
      ev.foldl (fun s o => if o.type = type then s + o.u64Field key default else s) s =
        ev.foldl (fun c o => if o.type == type then c + 1 else c) c +
        ev.foldl (fun e o => if o.type = type then e + (o.u64Field key default - 1) else e) e := by
    induction ev with
    | nil => exact fun _ _ _ h => h
    | cons o ev ih =>
      intro s c e h
      rw [List.foldl_cons, List.foldl_cons, List.foldl_cons]
      apply ih
      by_cases htype : o.type = type
      · simp only [htype, if_true, beq_self_eq_true, h]
        grind
      · simpa [htype] using h
  exact hfold 0 0 0 rfl

theorem sumOf_eq_countObs_iff :
    countObs ev type = sumOf ev type key default ↔ excess ev type key default = 0 := by
  rw [sumOf_eq]
  grind

theorem excess_perm {ev ev' : List Observation} (h : ev.Perm ev') :
    excess ev type key default = excess ev' type key default := by
  rw [excess, excess, foldl_add_if, foldl_add_if, (h.map _).sum_eq]

end Excess

theorem unitCounts_perm {ev ev' : List Observation} (h : ev.Perm ev') (hev : UnitCounts ev) :
    UnitCounts ev' :=
  ⟨excess_perm _ _ _ h ▸ hev.kv_hits, excess_perm _ _ _ h ▸ hev.kv_misses,
    excess_perm _ _ _ h ▸ hev.kernel_hits, excess_perm _ _ _ h ▸ hev.spec_accepted⟩

section Agreement
variable [Platform]

/-- The events of a type in some traces, as attribution counts them when it counts events. -/
theorem attributed_eq (figure : ResourceAttribution → UInt64) (type : ObsType)
    {ts : List RequestTrace}
    (h : ∀ t ∈ ts, countObs t.evidence type = figure (attributeResources t)) :
    UInt64.ofNat (occurrences [type] ts) = attributed figure ts := by
  have hcounts : attributed figure ts = UInt64.ofNat
      (total (fun t => UInt64.ofNat (t.evidence.countP fun o => o.type ∈ [type])) ts) := by
    unfold attributed total
    congr 2
    refine List.map_congr_left fun t ht => ?_
    dsimp only
    rw [← h t ht, countObs_eq]
    simp
  rw [hcounts, ofNat_total_ofNat, occurrences]

/-- The counters of hits and misses in the aggregate. -/
theorem aggregateOf_hits (l : List Observation) :
    (aggregateOf l).kvHits = UInt64.ofNat (occurrences [.kvHit] (tracesOf l)) ∧
      (aggregateOf l).kvMisses = UInt64.ofNat (occurrences [.kvMiss] (tracesOf l)) := by
  have hobs : ∀ (g : Aggregate) o, (g.addObservation o).kvHits =
        g.kvHits + UInt64.ofNat (if o.type ∈ [.kvHit] then 1 else 0) ∧
      (g.addObservation o).kvMisses =
        g.kvMisses + UInt64.ofNat (if o.type ∈ [.kvMiss] then 1 else 0) := by
    intro g o
    unfold Aggregate.addObservation
    cases o.type <;> simp
  have htrace : ∀ (g : Aggregate) t, (g.addTrace t).kvHits =
        g.kvHits + UInt64.ofNat (t.evidence.countP fun o => o.type ∈ [.kvHit]) ∧
      (g.addTrace t).kvMisses =
        g.kvMisses + UInt64.ofNat (t.evidence.countP fun o => o.type ∈ [.kvMiss]) := by
    intro g t
    simp only [Aggregate.addTrace]
    rw [foldl_part Aggregate.kvHits fun g o => (hobs g o).1,
      foldl_part Aggregate.kvMisses fun g o => (hobs g o).2,
      sum_ite_one fun o : Observation => o.type ∈ [.kvHit],
      sum_ite_one fun o : Observation => o.type ∈ [.kvMiss]]
    exact ⟨rfl, rfl⟩
  rw [aggregateOf, foldl_part Aggregate.kvHits fun g t => (htrace g t).1,
    foldl_part Aggregate.kvMisses fun g t => (htrace g t).2]
  exact ⟨UInt64.zero_add _, UInt64.zero_add _⟩

/-- The trace of a request is the only one with its identity. -/
theorem filter_requestId_tracesOf {l : List Observation} {rid : RequestId}
    (h : rid ∈ requestsOf l) : ((tracesOf l).filter fun t => t.requestId = rid) =
      [reconstructTrace (groupOf l rid) rid] := by
  have hcount : (requestsOf l).count rid = 1 :=
    List.count_eq_one_of_mem ExtTreeMap.nodup_keys h
  have hkeys : (requestsOf l).filter (fun k => decide (k = rid)) = [rid] := by
    have hfilter := List.filter_eq (l := requestsOf l) rid
    rw [hcount] at hfilter
    simpa using hfilter
  rw [tracesOf_eq, List.filter_map]
  have hcomp : ((fun t : RequestTrace => decide (t.requestId = rid)) ∘
      fun rid => reconstructTrace (groupOf l rid) rid) = fun k => decide (k = rid) := by
    funext k
    simp
  rw [hcomp, hkeys]
  rfl

theorem comparisonAgrees_iff (t t' : RequestTrace) : ComparisonAgrees t t' ↔
    excess t.evidence .kvHit FieldKeys.count 1 = 0 ∧
      excess t.evidence .kernelHit FieldKeys.count 1 = 0 ∧
      excess t.evidence .speculationVerify FieldKeys.acceptedTokens 0 = 0 := by
  rw [← sumOf_eq_countObs_iff, ← sumOf_eq_countObs_iff, ← sumOf_eq_countObs_iff]
  exact ⟨fun h => ⟨h.kv_hits.1, h.kernel_hits.1, h.spec_accepted.1⟩, fun h =>
    ⟨⟨h.1, h.1⟩, ⟨h.2.1, h.2.1⟩, ⟨h.2.2, h.2.2⟩⟩⟩

theorem summariesAgree_of_unitCounts {l : List Observation}
    (h : ∀ t ∈ tracesOf l, UnitCounts t.evidence) : SummariesAgree l := by
  have hhits : ∀ t ∈ tracesOf l, countObs t.evidence .kvHit = (attributeResources t).kvHits :=
    fun t ht => (sumOf_eq_countObs_iff _ _ _ _).mpr (h t ht).kv_hits
  have hmisses : ∀ t ∈ tracesOf l, countObs t.evidence .kvMiss = (attributeResources t).kvMisses :=
    fun t ht => (sumOf_eq_countObs_iff _ _ _ _).mpr (h t ht).kv_misses
  have hkernel : ∀ t ∈ tracesOf l,
      countObs t.evidence .kernelHit = (attributeResources t).kernelHits :=
    fun t ht => (sumOf_eq_countObs_iff _ _ _ _).mpr (h t ht).kernel_hits
  refine ⟨fun t ht t' => ?_, fun key g hg => ?_, ?_⟩
  · exact (comparisonAgrees_iff t t').mpr
      ⟨(h t ht).kv_hits, (h t ht).kernel_hits, (h t ht).spec_accepted⟩
  · rw [correlateBy_eq, groupsOf, List.mem_map] at hg
    obtain ⟨k, -, rfl⟩ := hg
    have hsub : ∀ t ∈ (tracesOf l).filter fun t => key t = k, t ∈ tracesOf l :=
      fun t ht => List.mem_of_mem_filter ht
    exact ⟨attributed_eq (·.kvHits) .kvHit fun t ht => hhits t (hsub t ht),
      attributed_eq (·.kvMisses) .kvMiss fun t ht => hmisses t (hsub t ht),
      attributed_eq (·.kernelHits) .kernelHit fun t ht => hkernel t (hsub t ht)⟩
  · obtain ⟨hkvHits, hkvMisses⟩ := aggregateOf_hits l
    rw [hkvHits, hkvMisses]
    exact ⟨attributed_eq (·.kvHits) .kvHit hhits, attributed_eq (·.kvMisses) .kvMiss hmisses⟩

/-- Grouping by a key that marks one request compares the misses of its trace. -/
theorem kvMisses_of_summariesAgree {l : List Observation} (h : SummariesAgree l) {rid : RequestId}
    (hrid : rid ∈ requestsOf l) :
    excess (reconstructTrace (groupOf l rid) rid).evidence .kvMiss FieldKeys.count 1 = 0 := by
  let t := reconstructTrace (groupOf l rid) rid
  let key : RequestTrace → Str := fun t => if t.requestId = rid then [1] else []
  have hmark : ∀ t : RequestTrace, key t = [1] ↔ t.requestId = rid := by
    intro t
    by_cases hid : t.requestId = rid <;> simp [key, hid]
  have hpart : ((tracesOf l).filter fun t => key t = [1]) = [t] := by
    simp only [hmark]
    exact filter_requestId_tracesOf hrid
  have ht : t ∈ tracesOf l := by
    refine List.mem_of_mem_filter (p := fun t => key t = [1]) ?_
    rw [hpart]
    exact List.mem_singleton_self t
  have hg : summaryOf [1] [t] ∈ correlateBy (tracesOf l) key := by
    rw [correlateBy_eq, groupsOf, List.mem_map]
    refine ⟨[1], (mem_groupKeys _ _ _).mpr ⟨t, ht, (hmark t).mpr ?_⟩, by rw [hpart]⟩
    exact reconstructTrace_requestId _ _
  have hmisses := (h.correlate key _ hg).2.1
  have hcount : (summaryOf [1] [t]).kvMisses = countObs t.evidence .kvMiss := by
    rw [countObs_eq]
    simp [summaryOf, Acc.summary, occurrences]
  have hfigure : attributed (·.kvMisses) [t] = (attributeResources t).kvMisses := by
    simp [attributed, total]
  change _ = attributed (·.kvMisses) ((tracesOf l).filter fun t => key t = [1]) at hmisses
  rw [hpart, hcount, hfigure] at hmisses
  exact (sumOf_eq_countObs_iff _ _ _ _).mp hmisses

theorem unitCounts_of_summariesAgree {l : List Observation} (h : SummariesAgree l) :
    ∀ t ∈ tracesOf l, UnitCounts t.evidence := by
  intro t ht
  obtain ⟨hhits, hkernel, haccepted⟩ := (comparisonAgrees_iff t t).mp (h.compare t ht t)
  rw [tracesOf_eq, List.mem_map] at ht
  obtain ⟨rid, hrid, rfl⟩ := ht
  exact ⟨hhits, kvMisses_of_summariesAgree h hrid, hkernel, haccepted⟩

/-- The condition on the traces is one on the evidence of each request. -/
theorem unitCounts_traces_iff (l : List Observation) :
    (∀ t ∈ tracesOf l, UnitCounts t.evidence) ↔
      ∀ rid : RequestId, rid.isNull = false → UnitCounts (l.filter fun o => o.requestId = rid) := by
  have hgroup : ∀ rid : RequestId, rid.isNull = false →
      groupOf l rid = l.filter fun o => o.requestId = rid := by
    intro rid hnull
    refine List.filter_congr fun o _ => ?_
    rw [decide_eq_decide, groupKey_eq_some]
    exact and_iff_right hnull
  have hperm : ∀ rid, (reconstructTrace (groupOf l rid) rid).evidence.Perm (groupOf l rid) := by
    intro rid
    rw [reconstructTrace_evidence]
    exact sorter.perm traceLt _
  rw [tracesOf_eq, List.forall_mem_map]
  constructor
  · intro h rid hnull
    rw [← hgroup rid hnull]
    by_cases hrid : rid ∈ requestsOf l
    · exact unitCounts_perm (hperm rid) (h rid hrid)
    · have hempty : groupOf l rid = [] := by
        rw [groupOf, List.filter_eq_nil_iff]
        intro o ho hkey
        exact hrid (ExtTreeMap.mem_keys.mpr ((mem_groupByRequest l rid).mpr
          ⟨o, ho, of_decide_eq_true hkey⟩))
      rw [hempty]
      exact ⟨rfl, rfl, rfl, rfl⟩
  · intro h rid hrid
    obtain ⟨o, -, hkey⟩ := (mem_groupByRequest l rid).mp (ExtTreeMap.mem_keys.mp hrid)
    have hnull := (groupKey_eq_some.mp hkey).1
    refine unitCounts_perm (hperm rid).symm ?_
    rw [hgroup rid hnull]
    exact h rid hnull

theorem summariesAgree_iff (l : List Observation) : SummariesAgree l ↔
    ∀ rid : RequestId, rid.isNull = false → UnitCounts (l.filter fun o => o.requestId = rid) :=
  Iff.trans ⟨unitCounts_of_summariesAgree, summariesAgree_of_unitCounts⟩ (unitCounts_traces_iff l)

/-- The summaries of what replay builds agree when, for each request, the counts of its hits
and misses and its accepted tokens add up to the numbers of the events. -/
theorem replayed_summaries_agree_iff (l : List Observation) :
    (∀ r, replay l = .ok r → r.traces = tracesOf l ∧
        r.aggregateDigest = Sha256.hash (aggregateSnapshot l).toCanonical) ∧
      (SummariesAgree l ↔ ∀ rid : RequestId, rid.isNull = false →
        UnitCounts (l.filter fun o => o.requestId = rid)) := by
  refine ⟨fun r hr => ?_, summariesAgree_iff l⟩
  obtain ⟨-, rfl⟩ := (replay_eq_ok_iff l r).mp hr
  exact ⟨rfl, rfl⟩

end Agreement

/-- A lookup that hit eight entries. -/
def eightHits : Observation :=
  { type := .kvHit
    fields := (ExtTreeMap.insert ∅ FieldKeys.requestId (.id ⟨0, 1⟩)).insert FieldKeys.count
      (.u64 8) }

/-- Attribution reports eight hits, and the other summaries report one. -/
theorem not_summariesAgree_eightHits : ¬ @SummariesAgree Platform.machine [eightHits] := by
  intro h
  let _ : Platform := Platform.machine
  have hid : eightHits.fields[FieldKeys.requestId]? = some (.id ⟨0, 1⟩) := by
    rw [eightHits, ExtTreeMap.getElem?_insert, if_neg (by decide),
      ExtTreeMap.getElem?_insert, if_pos (by decide)]
  have hcount : eightHits.fields[FieldKeys.count]? = some (.u64 8) := by
    rw [eightHits, ExtTreeMap.getElem?_insert, if_pos (by decide)]
  have hrequest : eightHits.requestId = ⟨⟨0, 1⟩⟩ := by
    simp [Observation.requestId, Observation.idField, hid]
  have hunit := ((summariesAgree_iff [eightHits]).mp h ⟨⟨0, 1⟩⟩ (by decide)).kv_hits
  have htype : eightHits.type = .kvHit := rfl
  simp [excess, hrequest, htype, Observation.u64Field, hcount] at hunit

end ServingObservatory
