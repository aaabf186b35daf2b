import ServingObservatory.Coordinator

/-!
# No evidence is lost or duplicated

The history of a run lists the observations ingested since the last reset with
the answers they received. The accepted map, the per-request index, the stale
history and the counters of the state reached are all determined by that list.
-/
namespace ServingObservatory
open Std

def pushIngest (log : List (Observation × IngestResult)) :
    CoordinatorOp × CoordinatorOut → List (Observation × IngestResult)
  | (.ingest o, .ingested result) => log ++ [(o, result)]
  | (.reset, _) => []
  | _ => log

/-- The observations ingested since the last reset, each with its answer. -/
def ingestLog (t : List (CoordinatorOp × CoordinatorOut)) : List (Observation × IngestResult) :=
  t.foldl pushIngest []

def acceptedOf (log : List (Observation × IngestResult)) : List Observation :=
  (log.filter (·.2.accepted)).map Prod.fst

def rejectedOf (log : List (Observation × IngestResult)) : List Observation :=
  (log.filter (!·.2.accepted)).map Prod.fst

theorem acceptedOf_concat (log : List (Observation × IngestResult)) (o : Observation)
    (result : IngestResult) : acceptedOf (log ++ [(o, result)]) =
      if result.accepted then acceptedOf log ++ [o] else acceptedOf log := by
  cases h : result.accepted <;> simp [acceptedOf, h]

theorem rejectedOf_concat (log : List (Observation × IngestResult)) (o : Observation)
    (result : IngestResult) : rejectedOf (log ++ [(o, result)]) =
      if result.accepted then rejectedOf log else rejectedOf log ++ [o] := by
  cases h : result.accepted <;> simp [rejectedOf, h]

/-- Accepted and rejected observations together are all the ingested ones. -/
theorem acceptedOf_append_rejectedOf_perm (log : List (Observation × IngestResult)) :
    (log.map Prod.fst).Perm (acceptedOf log ++ rejectedOf log) := by
  rw [acceptedOf, rejectedOf, ← List.map_append]
  exact ((List.filter_append_perm (fun p : Observation × IngestResult => p.2.accepted) log).map
    Prod.fst).symm

/-- The state accounts for every ingested observation exactly once. -/
structure Accounted (log : List (Observation × IngestResult)) (c : Coordinator) : Prop where
  own_id : ∀ (id : ObservationId) (o : Observation), c.accepted[id]? = some o → o.id = id
  accepted_perm : c.allAccepted.Perm (acceptedOf log)
  accepted_nodup : ((acceptedOf log).map Observation.id).Nodup
  by_request : ∀ rid : RequestId, rid.isNull = false →
    c.byRequest.getD rid [] = (acceptedOf log).filter (·.requestId = rid)
  index_nonempty : ∀ (rid : RequestId) (l : List Observation), c.byRequest[rid]? = some l → l ≠ []
  null_absent : ∀ rid : RequestId, rid.isNull = true → c.byRequest[rid]? = none
  stale_eq : c.stale.map Prod.fst = rejectedOf log
  partition : (log.map Prod.fst).Perm (c.allAccepted ++ c.stale.map Prod.fst)
  accepted_total : c.acceptedTotal = UInt32.ofNat c.acceptedCount
  rejected_total : c.staleTotal + c.duplicateTotal = UInt32.ofNat c.staleCount

theorem Coordinator.mem_allAccepted {c : Coordinator} {o : Observation} :
    o ∈ c.allAccepted ↔ ∃ id : ObservationId, c.accepted[id]? = some o := by
  simp [allAccepted, ExtTreeMap.mem_toList_iff_getElem?_eq_some]

/-- Evidence that lies in the accepted map or in the stale history lies in one of them. -/
theorem partition_perm {log : List (Observation × IngestResult)} {c : Coordinator}
    (hacc : c.allAccepted.Perm (acceptedOf log)) (hstale : c.stale.map Prod.fst = rejectedOf log) :
    (log.map Prod.fst).Perm (c.allAccepted ++ c.stale.map Prod.fst) := by
  rw [hstale]
  exact (acceptedOf_append_rejectedOf_perm log).trans (hacc.symm.append_right _)

theorem accounted_empty (epoch : UInt64) : Accounted [] { epoch := epoch } where
  own_id := by simp
  accepted_perm := by simp [Coordinator.allAccepted, acceptedOf]
  accepted_nodup := by simp [acceptedOf]
  by_request := by simp [acceptedOf, ExtTreeMap.getD_eq_getD_getElem?]
  index_nonempty := by simp
  null_absent := by simp
  stale_eq := rfl
  partition := by simp [Coordinator.allAccepted]
  accepted_total := by simp [Coordinator.acceptedCount]
  rejected_total := by simp [Coordinator.staleCount]

/-- Changes of the epoch and of the registry are not evidence. -/
theorem Accounted.of_same_evidence {log : List (Observation × IngestResult)} {c c' : Coordinator}
    (h : Accounted log c) (hacc : c'.accepted = c.accepted) (hreq : c'.byRequest = c.byRequest)
    (hstale : c'.stale = c.stale) (hat : c'.acceptedTotal = c.acceptedTotal)
    (hrt : c'.staleTotal + c'.duplicateTotal = c.staleTotal + c.duplicateTotal) :
    Accounted log c' := by
  have hall : c'.allAccepted = c.allAccepted := by simp only [Coordinator.allAccepted, hacc]
  exact
    { own_id := hacc ▸ h.own_id
      accepted_perm := hall ▸ h.accepted_perm
      accepted_nodup := h.accepted_nodup
      by_request := hreq ▸ h.by_request
      index_nonempty := hreq ▸ h.index_nonempty
      null_absent := hreq ▸ h.null_absent
      stale_eq := hstale ▸ h.stale_eq
      partition := hall ▸ hstale ▸ h.partition
      accepted_total := by
        rw [hat, h.accepted_total, Coordinator.acceptedCount, Coordinator.acceptedCount, hacc]
      rejected_total := by
        rw [hrt, h.rejected_total, Coordinator.staleCount, Coordinator.staleCount, hstale] }

/-- Either rejecting exit appends the observation to the stale history and
raises one of the two rejection counters. -/
theorem Accounted.reject {log : List (Observation × IngestResult)} {c c' : Coordinator}
    (h : Accounted log c) {o : Observation} {result : IngestResult} {reason : Str}
    (hres : result.accepted = false) (hacc : c'.accepted = c.accepted)
    (hreq : c'.byRequest = c.byRequest) (hstale : c'.stale = c.stale ++ [(o, reason)])
    (hat : c'.acceptedTotal = c.acceptedTotal)
    (hrt : c'.staleTotal + c'.duplicateTotal = c.staleTotal + c.duplicateTotal + 1) :
    Accounted (log ++ [(o, result)]) c' := by
  have haccOf : acceptedOf (log ++ [(o, result)]) = acceptedOf log := by
    simp [acceptedOf_concat, hres]
  have hperm : c'.allAccepted.Perm (acceptedOf (log ++ [(o, result)])) := by
    rw [haccOf, Coordinator.allAccepted, hacc]
    exact h.accepted_perm
  have hrejOf : c'.stale.map Prod.fst = rejectedOf (log ++ [(o, result)]) := by
    simp [rejectedOf_concat, hres, hstale, h.stale_eq]
  exact
    { own_id := hacc ▸ h.own_id
      accepted_perm := hperm
      accepted_nodup := haccOf ▸ h.accepted_nodup
      by_request := by
        rw [hreq, haccOf]
        exact h.by_request
      index_nonempty := hreq ▸ h.index_nonempty
      null_absent := hreq ▸ h.null_absent
      stale_eq := hrejOf
      partition := partition_perm hperm hrejOf
      accepted_total := by
        rw [hat, h.accepted_total, Coordinator.acceptedCount, Coordinator.acceptedCount, hacc]
      rejected_total := by
        rw [hrt, h.rejected_total]
        simp [Coordinator.staleCount, hstale] }

/-- The per-request index after an acceptance, read at any request. -/
theorem Coordinator.getD_indexed (c : Coordinator) (o : Observation) {rid : RequestId}
    (hrid : rid.isNull = false) : (c.indexed o).getD rid [] =
      c.byRequest.getD rid [] ++ if o.requestId = rid then [o] else [] := by
  unfold indexed
  by_cases h : o.requestId = rid
  · subst h
    simp [hrid]
  · split_ifs <;> simp [ExtTreeMap.getD_insert, h]

theorem Coordinator.indexed_eq_some {c : Coordinator} {o : Observation} {rid : RequestId}
    {l : List Observation} (h : (c.indexed o)[rid]? = some l) :
    (rid.isNull = false ∧ l ≠ []) ∨ c.byRequest[rid]? = some l := by
  unfold indexed at h
  split_ifs at h with hnull
  · rw [ExtTreeMap.getElem?_insert] at h
    split_ifs at h with heq
    · rw [LawfulEqOrd.eq_of_compare heq] at hnull
      cases h
      exact .inl ⟨by simpa using hnull, by simp⟩
    · exact .inr h
  · exact .inr h

/-- An observation of a new identity is none of the accepted ones. -/
theorem Accounted.id_fresh {log : List (Observation × IngestResult)} {c : Coordinator}
    (h : Accounted log c) {id : ObservationId} (hnew : c.accepted[id]? = none) :
    id ∉ (acceptedOf log).map Observation.id := by
  intro hmem
  obtain ⟨o, ho, rfl⟩ := List.mem_map.mp hmem
  obtain ⟨id, hget⟩ := Coordinator.mem_allAccepted.mp (h.accepted_perm.mem_iff.mpr ho)
  rw [← h.own_id id o hget, hnew] at hget
  cases hget

/-- The accepting exit adds the observation to the accepted ones. -/
theorem Coordinator.allAccepted_admitted_perm {c : Coordinator} {o : Observation}
    (hnew : c.accepted[o.id]? = none) (a : SourceAuthority) :
    (c.admitted o a).allAccepted.Perm (o :: c.allAccepted) := by
  simpa [allAccepted, admitted] using
    (OrderedMap.toList_insert_perm c.accepted o hnew).map Prod.snd

/-- The accepting exit adds the observation to the map and to the index. -/
theorem Accounted.admit {log : List (Observation × IngestResult)} {c : Coordinator}
    (h : Accounted log c) {o : Observation} {result : IngestResult} (a : SourceAuthority)
    (hres : result.accepted = true) (hnew : c.accepted[o.id]? = none) :
    Accounted (log ++ [(o, result)]) (c.admitted o a) := by
  have hacc : acceptedOf (log ++ [(o, result)]) = acceptedOf log ++ [o] := by
    simp [acceptedOf_concat, hres]
  have hall := Coordinator.allAccepted_admitted_perm hnew a
  have hperm : (c.admitted o a).allAccepted.Perm (acceptedOf (log ++ [(o, result)])) := by
    rw [hacc]
    exact hall.trans ((h.accepted_perm.cons o).trans (List.perm_append_singleton o _).symm)
  have hstale : (c.admitted o a).stale.map Prod.fst = rejectedOf (log ++ [(o, result)]) := by
    rw [rejectedOf_concat, if_pos hres]
    exact h.stale_eq
  refine
    { own_id := fun id o' hget => ?_
      accepted_perm := hperm
      accepted_nodup := ?_
      by_request := fun rid hrid => ?_
      index_nonempty := fun rid l hl => ?_
      null_absent := fun rid hrid => Option.eq_none_iff_forall_ne_some.mpr fun l hl => ?_
      stale_eq := hstale
      partition := partition_perm hperm hstale
      accepted_total := ?_
      rejected_total := h.rejected_total }
  · rw [Coordinator.getElem?_accepted_admitted] at hget
    split_ifs at hget with heq
    · cases hget
      exact heq
    · exact h.own_id id o' hget
  · rw [hacc, List.map_append, List.map_singleton, List.nodup_append]
    exact ⟨h.accepted_nodup, List.nodup_singleton _, fun x hx y hy hxy =>
      h.id_fresh hnew (List.mem_singleton.mp hy ▸ hxy ▸ hx)⟩
  · rw [hacc, List.filter_append, ← h.by_request rid hrid]
    refine (c.getD_indexed o hrid).trans (congrArg _ ?_)
    by_cases heq : o.requestId = rid <;> simp [heq]
  · rcases Coordinator.indexed_eq_some hl with ⟨-, hne⟩ | hold
    · exact hne
    · exact h.index_nonempty rid l hold
  · rcases Coordinator.indexed_eq_some hl with ⟨hnull, -⟩ | hold
    · rw [hrid] at hnull
      cases hnull
    · rw [h.null_absent rid hrid] at hold
      cases hold
  · rw [Coordinator.acceptedCount_admitted hnew a, UInt32.ofNat_add, ← h.accepted_total]
    rfl

/-- Each call keeps the account. -/
theorem accounted_step {t : List (CoordinatorOp × CoordinatorOut)} {c : Coordinator}
    (h : Accounted (ingestLog t) c) (op : CoordinatorOp) :
    Accounted (ingestLog (t ++ [(op, coordinatorMachine.out c op)]))
      (coordinatorMachine.next c op) := by
  simp only [ingestLog, List.foldl_append, List.foldl_cons, List.foldl_nil]
  cases op with
  | setEpoch e => exact h.of_same_evidence rfl rfl rfl rfl rfl
  | registerHello hello => exact h.of_same_evidence rfl rfl rfl rfl rfl
  | reset => exact accounted_empty c.epoch
  | ingest o =>
    rw [coordinatorMachine_out_ingest, coordinatorMachine_next_ingest]
    rcases c.ingest_cases o with ⟨-, hres, hnext⟩ | ⟨-, hres, -, hnext⟩ |
        ⟨hnew, hres, a, -, -, hnext⟩
    · rw [hnext]
      refine h.reject hres rfl rfl rfl rfl ?_
      simp [Coordinator.duplicated, UInt32.add_assoc]
    · rw [hnext]
      refine h.reject hres rfl rfl rfl rfl ?_
      simp only [Coordinator.rejected]
      rw [UInt32.add_assoc, UInt32.add_comm 1, ← UInt32.add_assoc]
    · rw [hnext]
      exact h.admit a hres hnew

theorem accounted_run (ops : List CoordinatorOp) :
    Accounted (ingestLog (coordinatorMachine.trace {} ops)) (coordinatorMachine.run {} ops) :=
  coordinatorMachine.history_induction (I := fun t c => Accounted (ingestLog t) c)
    (accounted_empty 1) (fun _ _ op h => accounted_step h op) ops

/-- Along every run of set_epoch, register_hello, ingest and reset the state
accounts for the observations ingested since the last reset. -/
theorem evidence_accounted (ops : List CoordinatorOp) :
    Accounted (ingestLog (coordinatorMachine.trace {} ops)) (coordinatorMachine.run {} ops) :=
  accounted_run ops

end ServingObservatory
