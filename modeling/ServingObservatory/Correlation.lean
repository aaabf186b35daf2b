import ServingObservatory.TailSelection
import ServingObservatory.WordSums

/-!
# Correlation groups

Traces are grouped by a key. Each group counts its traces, sums their latencies and the
events of their evidence, and summarizes the latencies by percentiles. The groups are
accumulated in one pass and summarized in a second one.
-/
namespace ServingObservatory
open Std Sorting WordSums NearestRank

structure GroupSummary where
  key : Str := []
  count : UInt64 := 0
  totalLatencyNs : UInt64 := 0
  p50Ns : UInt64 := 0
  p90Ns : UInt64 := 0
  p99Ns : UInt64 := 0
  totalRetries : UInt64 := 0
  workerRestartExposures : UInt64 := 0
  kvHits : UInt64 := 0
  kvMisses : UInt64 := 0
  kernelHits : UInt64 := 0
  kernelMisses : UInt64 := 0
  meanLatencyNs : F64 := F64.zero

/-- What the first pass accumulates for a key. -/
structure Acc where
  count : UInt64 := 0
  total : UInt64 := 0
  retries : UInt64 := 0
  restarts : UInt64 := 0
  kvh : UInt64 := 0
  kvm : UInt64 := 0
  kh : UInt64 := 0
  km : UInt64 := 0
  lats : List UInt64 := []

def Acc.addObservation (a : Acc) (o : Observation) : Acc :=
  if o.type = .retry then { a with retries := a.retries + 1 }
  else if o.type = .workerRestart ∨ o.type = .workerDown then { a with restarts := a.restarts + 1 }
  else if o.type = .kvHit then { a with kvh := a.kvh + 1 }
  else if o.type = .kvMiss then { a with kvm := a.kvm + 1 }
  else if o.type = .kernelHit then { a with kh := a.kh + 1 }
  else if o.type = .kernelMiss then { a with km := a.km + 1 }
  else a

def Acc.addTrace (a : Acc) (t : RequestTrace) : Acc :=
  let l := totalLatencyOf t
  t.evidence.foldl Acc.addObservation
    { a with count := a.count + 1, total := a.total + l, lats := a.lats ++ [l] }

/-- The first pass over the traces. -/
def accumulate (key : RequestTrace → Str) (traces : List RequestTrace) : ExtTreeMap Str Acc :=
  traces.foldl (OrderedMap.updateAt key Acc.addTrace {}) ∅

/-- `50.0`. -/
def F64.fifty : F64 := ⟨0x4049000000000000⟩

/-- `99.0`. -/
def F64.ninetyNine : F64 := ⟨0x4058C00000000000⟩

/-- `operator<` on the keys. -/
def keyLt (x y : GroupSummary) : Bool := (compareOn GroupSummary.key x y).isLT

section Groups
variable [Platform]

/-- What the second pass makes of an entry. -/
def Acc.summary (k : Str) (a : Acc) : GroupSummary :=
  { key := k
    count := a.count
    totalLatencyNs := a.total
    meanLatencyNs :=
      if a.count ≠ 0 then Platform.div (Platform.ofU64 a.total) (Platform.ofU64 a.count)
      else F64.zero
    p50Ns := percentileOf a.lats F64.fifty
    p90Ns := percentileOf a.lats F64.ninety
    p99Ns := percentileOf a.lats F64.ninetyNine
    totalRetries := a.retries
    workerRestartExposures := a.restarts
    kvHits := a.kvh
    kvMisses := a.kvm
    kernelHits := a.kh
    kernelMisses := a.km }

def correlateBy (traces : List RequestTrace) (key : RequestTrace → Str) : List GroupSummary :=
  sorter.sort keyLt ((accumulate key traces).toList.map fun p => p.2.summary p.1)

end Groups

/-- How often events of some types occur in the evidence of some traces. -/
def occurrences (types : List ObsType) (ts : List RequestTrace) : ℕ :=
  (ts.map fun t => t.evidence.countP fun o => o.type ∈ types).sum

/-- What a group says of its traces: their number, the sums and the percentiles. -/
def summaryOf [Platform] (k : Str) (ts : List RequestTrace) : GroupSummary :=
  Acc.summary k
    { count := UInt64.ofNat ts.length
      total := UInt64.ofNat (total totalLatencyOf ts)
      retries := UInt64.ofNat (occurrences [.retry] ts)
      restarts := UInt64.ofNat (occurrences [.workerRestart, .workerDown] ts)
      kvh := UInt64.ofNat (occurrences [.kvHit] ts)
      kvm := UInt64.ofNat (occurrences [.kvMiss] ts)
      kh := UInt64.ofNat (occurrences [.kernelHit] ts)
      km := UInt64.ofNat (occurrences [.kernelMiss] ts)
      lats := ts.map totalLatencyOf }

section Accumulation

/-- An event goes to the counter of its type, and to no other one. -/
theorem Acc.addObservation_parts (a : Acc) (o : Observation) :
    (a.addObservation o).retries = a.retries + UInt64.ofNat (if o.type ∈ [.retry] then 1 else 0) ∧
      (a.addObservation o).restarts =
        a.restarts + UInt64.ofNat (if o.type ∈ [.workerRestart, .workerDown] then 1 else 0) ∧
      (a.addObservation o).kvh = a.kvh + UInt64.ofNat (if o.type ∈ [.kvHit] then 1 else 0) ∧
      (a.addObservation o).kvm = a.kvm + UInt64.ofNat (if o.type ∈ [.kvMiss] then 1 else 0) ∧
      (a.addObservation o).kh = a.kh + UInt64.ofNat (if o.type ∈ [.kernelHit] then 1 else 0) ∧
      (a.addObservation o).km = a.km + UInt64.ofNat (if o.type ∈ [.kernelMiss] then 1 else 0) := by
  unfold Acc.addObservation
  cases o.type <;> simp

theorem Acc.addObservation_frame (a : Acc) (o : Observation) :
    ((a.addObservation o).count, (a.addObservation o).total, (a.addObservation o).lats) =
      (a.count, a.total, a.lats) := by
  unfold Acc.addObservation
  split_ifs <;> rfl

/-- A loop over evidence whose every step counts the events of some types. -/
theorem foldl_addObservation (part : Acc → UInt64) (types : List ObsType)
    (hpart : ∀ a o, part (Acc.addObservation a o) =
      part a + UInt64.ofNat (if o.type ∈ types then 1 else 0)) (a : Acc) (l : List Observation) :
    part (l.foldl Acc.addObservation a) =
      part a + UInt64.ofNat (l.countP fun o => o.type ∈ types) := by
  rw [foldl_part part hpart, sum_ite_one fun o : Observation => o.type ∈ types]

/-- A loop over traces whose every step counts the events of some types. -/
theorem foldl_addTrace (part : Acc → UInt64) (types : List ObsType)
    (hpart : ∀ a o, part (Acc.addObservation a o) =
      part a + UInt64.ofNat (if o.type ∈ types then 1 else 0))
    (hstart : ∀ (a : Acc) count total lats,
      part { a with count := count, total := total, lats := lats } = part a)
    (a : Acc) (ts : List RequestTrace) :
    part (ts.foldl Acc.addTrace a) = part a + UInt64.ofNat (occurrences types ts) := by
  refine foldl_part part (fun a t => ?_) ts a
  rw [Acc.addTrace, foldl_addObservation part types hpart, hstart]

theorem Acc.addTrace_parts (a : Acc) (t : RequestTrace) :
    (a.addTrace t).count = a.count + 1 ∧ (a.addTrace t).total = a.total + totalLatencyOf t ∧
      (a.addTrace t).lats = a.lats ++ [totalLatencyOf t] := by
  have hframe := foldl_frame (fun a : Acc => (a.count, a.total, a.lats)) Acc.addObservation_frame
    t.evidence
    { a with count := a.count + 1, total := a.total + totalLatencyOf t,
             lats := a.lats ++ [totalLatencyOf t] }
  rw [Prod.mk.injEq, Prod.mk.injEq] at hframe
  exact hframe

theorem foldl_addTrace_lats (a : Acc) (ts : List RequestTrace) :
    (ts.foldl Acc.addTrace a).lats = a.lats ++ ts.map totalLatencyOf := by
  induction ts generalizing a with
  | nil => simp
  | cons t ts ih =>
    rw [List.foldl_cons, ih, (a.addTrace_parts t).2.2, List.append_assoc]
    rfl

variable [Platform]

/-- Accumulating some traces gives their sums. -/
theorem summary_foldl_addTrace (k : Str) (ts : List RequestTrace) :
    (ts.foldl Acc.addTrace {}).summary k = summaryOf k ts := by
  have hcount : (ts.foldl Acc.addTrace {}).count = UInt64.ofNat ts.length := by
    rw [foldl_part Acc.count (f := fun _ => 1) fun a t => (a.addTrace_parts t).1]
    simp
  have htotal : (ts.foldl Acc.addTrace {}).total = UInt64.ofNat (total totalLatencyOf ts) := by
    rw [foldl_part Acc.total (f := fun t => (totalLatencyOf t).toNat) fun a t => by
      rw [(a.addTrace_parts t).2.1, UInt64.ofNat_toNat], UInt64.zero_add]
    rfl
  have hparts := Acc.addObservation_parts
  have hretries := foldl_addTrace Acc.retries [.retry] (fun a o => (hparts a o).1)
    (fun _ _ _ _ => rfl) {} ts
  have hrestarts := foldl_addTrace Acc.restarts [.workerRestart, .workerDown]
    (fun a o => (hparts a o).2.1) (fun _ _ _ _ => rfl) {} ts
  have hkvh := foldl_addTrace Acc.kvh [.kvHit] (fun a o => (hparts a o).2.2.1)
    (fun _ _ _ _ => rfl) {} ts
  have hkvm := foldl_addTrace Acc.kvm [.kvMiss] (fun a o => (hparts a o).2.2.2.1)
    (fun _ _ _ _ => rfl) {} ts
  have hkh := foldl_addTrace Acc.kh [.kernelHit] (fun a o => (hparts a o).2.2.2.2.1)
    (fun _ _ _ _ => rfl) {} ts
  have hkm := foldl_addTrace Acc.km [.kernelMiss] (fun a o => (hparts a o).2.2.2.2.2)
    (fun _ _ _ _ => rfl) {} ts
  have hlats := foldl_addTrace_lats {} ts
  rw [UInt64.zero_add] at hretries hrestarts hkvh hkvm hkh hkm
  simp only [Acc.summary, summaryOf, hcount, htotal, hretries, hrestarts, hkvh, hkvm, hkh, hkm,
    hlats, List.nil_append]

/-- A summary does not depend on the order of the traces. -/
theorem summaryOf_perm (k : Str) {ts ts' : List RequestTrace} (h : ts.Perm ts') :
    summaryOf k ts = summaryOf k ts' := by
  have htotal : total totalLatencyOf ts = total totalLatencyOf ts' := (h.map _).sum_eq
  have hoccurrences : ∀ types, occurrences types ts = occurrences types ts' := fun types =>
    (h.map _).sum_eq
  simp only [summaryOf, Acc.summary, h.length_eq, htotal, hoccurrences,
    percentileOf_perm (h.map totalLatencyOf)]

end Accumulation

section Groups
variable [Platform] (traces : List RequestTrace) (key : RequestTrace → Str)

/-- The keys that occur, in increasing order. -/
def groupKeys : List Str := (accumulate key traces).keys

omit [Platform] in
theorem mem_groupKeys (k : Str) : k ∈ groupKeys traces key ↔ ∃ t ∈ traces, key t = k := by
  rw [groupKeys, ExtTreeMap.mem_keys, accumulate, OrderedMap.mem_foldl_updateAt]
  simp

omit [Platform] in
theorem strictWeak_keyLt : StrictWeak keyLt := strictWeak_isLT (compareOn GroupSummary.key)

/-- The groups in key order, each the summary of the traces with its key. -/
def groupsOf : List GroupSummary :=
  (groupKeys traces key).map fun k => summaryOf k (traces.filter fun t => key t = k)

theorem map_key_groupsOf : (groupsOf traces key).map GroupSummary.key = groupKeys traces key := by
  rw [groupsOf, List.map_map]
  exact List.map_id _

/-- The second pass of the source, and its sort, give these groups. -/
theorem correlateBy_eq : correlateBy traces key = groupsOf traces key := by
  have hentry : ∀ k, (accumulate key traces).getD k {} =
      (traces.filter fun t => key t = k).foldl Acc.addTrace {} := by
    intro k
    rw [accumulate, OrderedMap.getD_foldl_updateAt]
    simp
  have hgroups : ((accumulate key traces).toList.map fun p => p.2.summary p.1) =
      groupsOf traces key := by
    rw [OrderedMap.toList_eq_map_keys _ {}, List.map_map]
    refine List.map_congr_left fun k _ => ?_
    rw [Function.comp_apply, hentry, summary_foldl_addTrace]
  have hnodup : ((groupsOf traces key).map GroupSummary.key).Nodup := by
    rw [map_key_groupsOf]
    exact ExtTreeMap.nodup_keys
  have hsep : Separates keyLt (groupsOf traces key) :=
    separates_of_key GroupSummary.key hnodup fun a b hab hba =>
      LawfulEqOrd.eq_of_compare (eq_of_not_isLT (compareOn GroupSummary.key) hab hba)
  have hascending : Ascending keyLt (groupsOf traces key) := by
    refine List.pairwise_map.mpr (ExtTreeMap.ordered_keys.imp fun {a b} h => ?_)
    exact strictWeak_keyLt.asymm (by simp [keyLt, compareOn, summaryOf, Acc.summary, h])
  rw [correlateBy, hgroups]
  exact eq_of_ascending (sorter.perm keyLt _) (hsep.perm (sorter.perm keyLt _).symm)
    (sorter.ascending _ strictWeak_keyLt) hascending

theorem correlateBy_perm {traces traces' : List RequestTrace} (h : traces.Perm traces') :
    correlateBy traces key = correlateBy traces' key := by
  have hkeys : groupKeys traces key = groupKeys traces' key := by
    refine OrderedMap.keys_congr fun k => ?_
    rw [← ExtTreeMap.mem_keys, ← ExtTreeMap.mem_keys]
    change k ∈ groupKeys traces key ↔ k ∈ groupKeys traces' key
    rw [mem_groupKeys, mem_groupKeys]
    simp only [h.mem_iff]
  rw [correlateBy_eq, correlateBy_eq, groupsOf, hkeys]
  exact List.map_congr_left fun k _ => summaryOf_perm k (h.filter _)

end Groups

/-- The counters of a group are the numbers of its traces and of their events. -/
structure GroupSummary.CountsExactly (g : GroupSummary) (ts : List RequestTrace) : Prop where
  count : g.count.toNat = ts.length
  retries : g.totalRetries.toNat = occurrences [.retry] ts
  restarts : g.workerRestartExposures.toNat = occurrences [.workerRestart, .workerDown] ts
  kv_hits : g.kvHits.toNat = occurrences [.kvHit] ts
  kv_misses : g.kvMisses.toNat = occurrences [.kvMiss] ts
  kernel_hits : g.kernelHits.toNat = occurrences [.kernelHit] ts
  kernel_misses : g.kernelMisses.toNat = occurrences [.kernelMiss] ts

theorem occurrences_le (types : List ObsType) {ts traces : List RequestTrace}
    (h : ts.Sublist traces) :
    occurrences types ts ≤ (traces.map fun t => t.evidence.length).sum :=
  (List.sum_le_sum fun _ _ => List.countP_le_length).trans
    ((h.map fun t => t.evidence.length).sum_le_sum fun _ _ => Nat.zero_le _)

/-- Counters of evidence that a machine can hold do not wrap. -/
theorem countsExactly_summaryOf [Platform] {ts traces : List RequestTrace} (h : ts.Sublist traces)
    (hlen : traces.length < 2 ^ 64)
    (hev : (traces.map fun t => t.evidence.length).sum < 2 ^ 64) (k : Str) :
    (summaryOf k ts).CountsExactly ts := by
  have hfits : ∀ types, (UInt64.ofNat (occurrences types ts)).toNat = occurrences types ts :=
    fun types => UInt64.toNat_ofNat_of_lt' ((occurrences_le types h).trans_lt hev)
  exact ⟨UInt64.toNat_ofNat_of_lt' (h.length_le.trans_lt hlen), hfits _, hfits _, hfits _, hfits _,
    hfits _, hfits _⟩

/-- Where doubles give the ranks of rational arithmetic, the percentiles of a group are the nearest
ranks of the latencies of its traces. -/
theorem covers_correlateBy [Platform] {traces : List RequestTrace} {key : RequestTrace → Str}
    {g : GroupSummary} (hg : g ∈ correlateBy traces key)
    (hranks : ∀ x ∈ [(F64.fifty, (50 : ℚ)), (F64.ninety, 90), (F64.ninetyNine, 99)],
      RanksAs x.1 x.2 (traces.filter fun t => key t = g.key).length) :
    let lats := (traces.filter fun t => key t = g.key).map totalLatencyOf
    Covers lats 50 g.p50Ns ∧ Covers lats 90 g.p90Ns ∧ Covers lats 99 g.p99Ns := by
  rw [correlateBy_eq] at hg
  obtain ⟨k, hk, rfl⟩ := List.mem_map.mp hg
  intro lats
  have hlen : lats.length = (traces.filter fun t => key t = k).length := List.length_map _
  simp only [List.forall_mem_cons] at hranks
  obtain ⟨h50, h90, h99, -⟩ := hranks
  obtain ⟨t, ht, htk⟩ := (mem_groupKeys traces key k).mp hk
  have hne : lats ≠ [] :=
    List.ne_nil_of_mem (List.mem_map_of_mem (List.mem_filter.mpr ⟨ht, decide_eq_true htk⟩))
  have hcovers : ∀ (percentile : F64) (p : ℚ),
      RanksAs percentile p (traces.filter fun t => key t = k).length → 0 < p → p ≤ 100 →
        Covers lats p (percentileOf lats percentile) := by
    intro percentile p h hp hle
    rw [← hlen] at h
    rw [percentileOf_eq_exact h]
    exact covers_percentileExact hne hp hle
  exact ⟨hcovers _ _ h50 (by norm_num) (by norm_num), hcovers _ _ h90 (by norm_num) (by norm_num),
    hcovers _ _ h99 (by norm_num) (by norm_num)⟩

/-- The groups partition the traces by their keys, and each summarizes its part, in
whatever order the traces are given. -/
theorem correlateBy_partition [Platform] (traces : List RequestTrace)
    (key : RequestTrace → Str) :
    ((correlateBy traces key).map GroupSummary.key).Pairwise (fun a b => compare a b = .lt) ∧
      (∀ k, k ∈ (correlateBy traces key).map GroupSummary.key ↔ ∃ t ∈ traces, key t = k) ∧
      ((correlateBy traces key).flatMap fun g => traces.filter fun t => key t = g.key).Perm
        traces ∧
      (∀ g ∈ correlateBy traces key, g = summaryOf g.key (traces.filter fun t => key t = g.key)) ∧
      (traces.length < 2 ^ 64 → (traces.map fun t => t.evidence.length).sum < 2 ^ 64 →
        ∀ g ∈ correlateBy traces key, g.CountsExactly (traces.filter fun t => key t = g.key)) ∧
      ∀ traces', traces.Perm traces' → correlateBy traces' key = correlateBy traces key := by
  rw [correlateBy_eq]
  have hgroup : ∀ g ∈ groupsOf traces key,
      g = summaryOf g.key (traces.filter fun t => key t = g.key) := by
    intro g hg
    obtain ⟨k, -, rfl⟩ := List.mem_map.mp hg
    rfl
  refine ⟨?_, fun k => ?_, ?_, hgroup, fun hlen hev g hg => ?_, fun traces' h => ?_⟩
  · rw [map_key_groupsOf]
    exact ExtTreeMap.ordered_keys
  · rw [map_key_groupsOf, mem_groupKeys]
  · have hkeys : (groupKeys traces key).Nodup := ExtTreeMap.nodup_keys
    have hparts := OrderedMap.flatMap_group_perm (fun t => some (key t)) hkeys traces
    have hall : (traces.filter fun t => ∃ k ∈ groupKeys traces key, some (key t) = some k) =
        traces := List.filter_eq_self.mpr fun t ht => by
      simpa [mem_groupKeys] using ⟨t, ht, rfl⟩
    rw [hall, ← map_key_groupsOf, List.flatMap_map] at hparts
    simpa using hparts
  · rw [hgroup g hg]
    exact countsExactly_summaryOf List.filter_sublist hlen hev _
  · rw [← correlateBy_perm key h, correlateBy_eq]

end ServingObservatory
