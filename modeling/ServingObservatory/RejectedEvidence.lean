import ServingObservatory.Coordinator

/-!
# Rejected evidence has no influence

The stale history and the two rejection counters are written by the coordinator
and never read again. Deleting the rejected calls from a run therefore changes
neither the current state nor the answer to any other call.
-/
namespace ServingObservatory
open Std

/-- Everything but the stale history and the rejection counters is equal. -/
structure SameCurrent (c d : Coordinator) : Prop where
  epoch : c.epoch = d.epoch
  registry : c.registry = d.registry
  accepted : c.accepted = d.accepted
  byRequest : c.byRequest = d.byRequest
  acceptedTotal : c.acceptedTotal = d.acceptedTotal

/-- Two answers to an ingest differ at most in the count of rejections. -/
def SameResult (x y : IngestResult) : Prop :=
  x.accepted = y.accepted ∧ x.decision = y.decision ∧ x.reason = y.reason ∧
    x.acceptedTotal = y.acceptedTotal

/-- Equal answers, up to the count of rejections. -/
def SameAnswer : CoordinatorOut → CoordinatorOut → Prop
  | .ingested x, .ingested y => SameResult x y
  | x, y => x = y

/-- Whether a call with its answer is anything but a rejected ingest. -/
def notRejected : CoordinatorOp × CoordinatorOut → Bool
  | (.ingest _, .ingested result) => result.accepted
  | _ => true

/-- The calls of a run that are not rejected ingests. -/
def withoutRejected (ops : List CoordinatorOp) : List CoordinatorOp :=
  coordinatorMachine.kept notRejected {} ops

theorem SameCurrent.refl (c : Coordinator) : SameCurrent c c := ⟨rfl, rfl, rfl, rfl, rfl⟩

theorem SameCurrent.trans {c d e : Coordinator} (h : SameCurrent c d) (h' : SameCurrent d e) :
    SameCurrent c e where
  epoch := h.epoch.trans h'.epoch
  registry := h.registry.trans h'.registry
  accepted := h.accepted.trans h'.accepted
  byRequest := h.byRequest.trans h'.byRequest
  acceptedTotal := h.acceptedTotal.trans h'.acceptedTotal

theorem SameCurrent.ingest {c d : Coordinator} (h : SameCurrent c d) (o : Observation) :
    SameCurrent (c.ingest o).2 (d.ingest o).2 ∧ SameResult (c.ingest o).1 (d.ingest o).1 := by
  obtain ⟨hepoch, hreg, hacc, hreq, htotal⟩ := h
  unfold Coordinator.ingest
  rw [hacc, hreg]
  rcases d.registry.validate o with ⟨⟨decision, reason⟩, registry⟩
  dsimp only
  split_ifs
  · exact ⟨⟨hepoch, rfl, rfl, hreq, htotal⟩, rfl, rfl, rfl, htotal⟩
  · exact ⟨⟨hepoch, rfl, rfl, hreq, htotal⟩, rfl, rfl, rfl, htotal⟩
  · exact ⟨⟨hepoch, rfl, rfl, by rw [hreq], by rw [htotal]⟩, rfl, rfl, rfl, by rw [htotal]⟩
  · exact ⟨⟨hepoch, rfl, rfl, hreq, by rw [htotal]⟩, rfl, rfl, rfl, by rw [htotal]⟩

/-- A rejected ingest is invisible to the current state. -/
theorem sameCurrent_of_rejected {c : Coordinator} {o : Observation}
    (h : (c.ingest o).1.accepted = false) : SameCurrent (c.ingest o).2 c := by
  rcases c.ingest_cases o with ⟨-, -, hnext⟩ | ⟨-, -, -, hnext⟩ | ⟨-, hacc, -⟩
  · exact hnext ▸ ⟨rfl, rfl, rfl, rfl, rfl⟩
  · exact hnext ▸ ⟨rfl, rfl, rfl, rfl, rfl⟩
  · rw [h] at hacc
    cases hacc

/-- Every call acts alike on states with the same current part. -/
theorem SameCurrent.step {c d : Coordinator} (h : SameCurrent c d) (op : CoordinatorOp) :
    SameCurrent (coordinatorMachine.next c op) (coordinatorMachine.next d op) ∧
      SameAnswer (coordinatorMachine.out c op) (coordinatorMachine.out d op) := by
  cases op with
  | ingest o => exact h.ingest o
  | setEpoch e => exact ⟨⟨rfl, h.registry, h.accepted, h.byRequest, h.acceptedTotal⟩, rfl⟩
  | reset => exact ⟨⟨h.epoch, rfl, rfl, rfl, rfl⟩, rfl⟩
  | registerHello hello =>
    have hreg : c.registerHello hello = ((d.registerHello hello).1,
        { c with registry := (d.registerHello hello).2.registry }) := by
      simp only [Coordinator.registerHello, h.registry]
    refine ⟨?_, ?_⟩
    · simp only [Machine.next, coordinatorMachine, hreg]
      exact ⟨h.epoch, rfl, h.accepted, h.byRequest, h.acceptedTotal⟩
    · exact congrArg (CoordinatorOut.registered ·.1) hreg

theorem withoutRejected_simulates (ops : List CoordinatorOp) :
    SameCurrent (coordinatorMachine.run {} ops) (coordinatorMachine.run {} (withoutRejected ops)) ∧
      List.Forall₂ (fun p q => p.1 = q.1 ∧ SameAnswer p.2 q.2)
        ((coordinatorMachine.trace {} ops).filter notRejected)
        (coordinatorMachine.trace {} (withoutRejected ops)) := by
  refine coordinatorMachine.erase_run (fun c d op hcd hdrop => ?_)
    (fun c d op hcd _ => hcd.step op) (SameCurrent.refl {}) ops
  cases op with
  | ingest o => exact SameCurrent.trans (sameCurrent_of_rejected hdrop) hcd
  | setEpoch e => cases hdrop
  | registerHello hello => cases hdrop
  | reset => cases hdrop

/-- Without the rejected ingests every remaining ingest is still accepted, and
the run ends in the same registry, accepted map, index and accepted count. -/
theorem rejected_without_influence (ops : List CoordinatorOp) :
    (∀ o result, (CoordinatorOp.ingest o, CoordinatorOut.ingested result) ∈
        coordinatorMachine.trace {} (withoutRejected ops) → result.accepted = true) ∧
      (withoutRejected ops).Sublist ops ∧
      let c := coordinatorMachine.run {} ops
      let d := coordinatorMachine.run {} (withoutRejected ops)
      d.registry = c.registry ∧ d.accepted = c.accepted ∧ d.byRequest = c.byRequest ∧
        d.acceptedTotal = c.acceptedTotal := by
  obtain ⟨hsame, hanswers⟩ := withoutRejected_simulates ops
  refine ⟨fun o result hmem => ?_, ?_, hsame.registry.symm, hsame.accepted.symm,
    hsame.byRequest.symm, hsame.acceptedTotal.symm⟩
  · obtain ⟨⟨op, out⟩, hop, rfl, hsame⟩ := Machine.exists_of_forall₂ hanswers hmem
    have hkept := (List.mem_filter.mp hop).2
    cases out with
    | ingested result' => exact hsame.1 ▸ hkept
    | done => cases hsame
    | registered r => cases hsame
  · conv_rhs => rw [← coordinatorMachine.trace_map_fst {} ops]
    exact List.filter_sublist.map Prod.fst

end ServingObservatory
