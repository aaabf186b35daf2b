import ServingObservatory.Replay

/-!
# Replay and the order of evidence

The comparisons of the two evidence sorts tell observations of different identities
apart, so a sort has one result. Grouping into a sorted map keeps the members of each
group, and everything else is computed after sorting.
-/
namespace ServingObservatory
open Std Sorting

/-- The four keys of the evidence sort. -/
def traceCmp : Observation → Observation → Ordering :=
  compareLex (compareOn fun o => (obsTime o).ts) <|
    compareLex (compareOn fun o => !(obsTime o).inRecvDomain) <|
      compareLex (compareOn Observation.seq) (compareOn Observation.id)

instance : TransCmp traceCmp := by
  unfold traceCmp
  infer_instance

theorem isLT_compareLex {α : Type} (c d : α → α → Ordering) (a b : α) :
    (compareLex c d a b).isLT = if c a b = .eq then (d a b).isLT else (c a b).isLT := by
  unfold compareLex
  cases c a b <;> rfl

theorem isLT_compare (a b : UInt64) : (compare a b).isLT = decide (a < b) := by
  change (compareOfLessAndEq a b).isLT = _
  unfold compareOfLessAndEq
  by_cases h : a < b
  · simp [h]
  · by_cases h' : a = b <;> simp [h, h']

theorem traceLt_eq (a b : Observation) : traceLt a b = (traceCmp a b).isLT := by
  have hdomain : (compare (!(obsTime a).inRecvDomain) (!(obsTime b).inRecvDomain)).isLT =
      ((obsTime a).inRecvDomain && !(obsTime b).inRecvDomain) := by
    cases (obsTime a).inRecvDomain <;> cases (obsTime b).inRecvDomain <;> rfl
  have hid : (compare a.id b.id).isLT = a.id.raw.lt b.id.raw := (Id128.lt_eq_isLT _ _).symm
  simp only [traceLt, traceCmp, isLT_compareLex, compareOn, isLT_compare, hdomain, hid,
    Std.compare_eq_iff_eq, ne_eq, ite_not, Bool.not_inj_iff]

theorem strictWeak_traceLt : StrictWeak traceLt := by
  rw [show traceLt = fun a b => (traceCmp a b).isLT from funext₂ traceLt_eq]
  exact strictWeak_isLT traceCmp

theorem idLt_eq (a b : Observation) : idLt a b = (compareOn Observation.id a b).isLT :=
  Id128.lt_eq_isLT _ _

theorem strictWeak_idLt : StrictWeak idLt := by
  rw [show idLt = fun a b => (compareOn Observation.id a b).isLT from funext₂ idLt_eq]
  exact strictWeak_isLT _

/-- Neither below the other: the comparison is an equality. -/
theorem eq_of_not_isLT {α : Type} (cmp : α → α → Ordering) [OrientedCmp cmp] {a b : α}
    (hab : (cmp a b).isLT = false) (hba : (cmp b a).isLT = false) : cmp a b = .eq := by
  have hswap : cmp b a = (cmp a b).swap := OrientedCmp.eq_swap
  rw [hswap] at hba
  cases h : cmp a b <;> simp_all

theorem separates_idLt {l : List Observation} (hl : (l.map Observation.id).Nodup) :
    Separates idLt l := by
  refine separates_of_key Observation.id hl fun a b hab hba => ?_
  rw [idLt_eq] at hab hba
  exact Std.compare_eq_iff_eq.mp (eq_of_not_isLT (compareOn Observation.id) hab hba)

theorem separates_traceLt {l : List Observation} (hl : (l.map Observation.id).Nodup) :
    Separates traceLt l := by
  refine separates_of_key Observation.id hl fun a b hab hba => ?_
  rw [traceLt_eq] at hab hba
  have heq : traceCmp a b = .eq := eq_of_not_isLT traceCmp hab hba
  simp only [traceCmp, compareLex, Ordering.then_eq_eq, compareOn, Std.compare_eq_iff_eq] at heq
  exact heq.2.2.2

/-- The key under which an observation is grouped. -/
def groupKey (o : Observation) : Option RequestId :=
  if o.requestId.isNull then none else some o.requestId

theorem groupByRequest_eq (l : List Observation) :
    groupByRequest l = l.foldl (OrderedMap.pushBack groupKey) ∅ := by
  unfold groupByRequest
  congr 1
  funext groups o
  unfold OrderedMap.pushBack groupKey
  cases o.requestId.isNull <;> rfl

/-- The observations of a request, in the order of the list. -/
def groupOf (l : List Observation) (rid : RequestId) : List Observation :=
  l.filter fun o => groupKey o = some rid

theorem getD_groupByRequest (l : List Observation) (rid : RequestId) :
    (groupByRequest l).getD rid [] = groupOf l rid := by
  rw [groupByRequest_eq, OrderedMap.getD_foldl_pushBack]
  simp [groupOf]

theorem mem_groupByRequest (l : List Observation) (rid : RequestId) :
    rid ∈ groupByRequest l ↔ ∃ o ∈ l, groupKey o = some rid := by
  rw [groupByRequest_eq, OrderedMap.mem_foldl_pushBack]
  simp

/-- The requests of a list of evidence, in increasing order. -/
def requestsOf (l : List Observation) : List RequestId := (groupByRequest l).keys

variable {l l' : List Observation}

theorem requestsOf_perm (hl : l.Perm l') : requestsOf l = requestsOf l' := by
  apply OrderedMap.keys_congr
  intro rid
  simp only [mem_groupByRequest, hl.mem_iff]

theorem nodup_groupOf (hid : (l.map Observation.id).Nodup) (rid : RequestId) :
    ((groupOf l rid).map Observation.id).Nodup :=
  hid.sublist (List.filter_sublist.map _)

section Replaying
variable [Platform]

/-- Evidence of distinct identities that ascends is sorted. -/
theorem sort_traceLt_eq_self (hid : (l.map Observation.id).Nodup) (h : Ascending traceLt l) :
    sorter.sort traceLt l = l :=
  eq_of_ascending (sorter.perm traceLt l)
    ((separates_traceLt hid).perm (sorter.perm traceLt l).symm)
    (sorter.ascending l strictWeak_traceLt) h

theorem tracesOf_eq (l : List Observation) :
    tracesOf l = (requestsOf l).map fun rid => reconstructTrace (groupOf l rid) rid := by
  rw [tracesOf, OrderedMap.toList_eq_map_keys _ [], List.map_map]
  refine List.map_congr_left fun rid _ => ?_
  simp only [Function.comp_apply, getD_groupByRequest]

theorem reconstructTrace_perm (hl : l.Perm l') (hid : (l.map Observation.id).Nodup)
    (rid : RequestId) : reconstructTrace l rid = reconstructTrace l' rid := by
  have hsort : sorter.sort traceLt l = sorter.sort traceLt l' :=
    sorter.sort_congr strictWeak_traceLt hl (separates_traceLt hid)
  simp only [reconstructTrace, hsort]

theorem tracesOf_perm (hl : l.Perm l') (hid : (l.map Observation.id).Nodup) :
    tracesOf l = tracesOf l' := by
  rw [tracesOf_eq, tracesOf_eq, requestsOf_perm hl]
  refine List.map_congr_left fun rid _ => ?_
  exact reconstructTrace_perm (hl.filter _) (nodup_groupOf hid rid) rid

theorem evidenceBytes_perm (hl : l.Perm l') (hid : (l.map Observation.id).Nodup) :
    evidenceBytes l = evidenceBytes l' := by
  have hsort : sorter.sort idLt l = sorter.sort idLt l' :=
    sorter.sort_congr strictWeak_idLt hl (separates_idLt hid)
  simp only [evidenceBytes, hsort]

/-- Replay does not depend on the order of evidence: the whole result is the same. -/
theorem replay_perm (l l' : List Observation) (hl : l.Perm l')
    (hid : (l.map Observation.id).Nodup) : replay l = replay l' := by
  rw [replay, replay, evidenceDigestOf, evidenceDigestOf, evidenceBytes_perm hl hid,
    tracesOf_perm hl hid, hl.length_eq]

end Replaying

/-- A request and its completion, in both orders. -/
theorem replay_perm_swap :
    let request : Observation := { id := ⟨⟨0, 1⟩⟩, type := .request, hasRecvTs := true, recvTs := 5 }
    let completion : Observation := { id := ⟨⟨0, 2⟩⟩, type := .completion }
    @replay Platform.machine [request, completion] =
      @replay Platform.machine [completion, request] := by
  intro request completion
  exact @replay_perm Platform.machine _ _ (List.Perm.swap completion request []) (by decide)

end ServingObservatory
