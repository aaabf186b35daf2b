import ServingObservatory.Coordinator

/-!
# When the coordinator epoch is enforced

The epoch set on the coordinator is never read: validation compares an
observation with the epoch that its source announced in its latest HELLO. So the
coordinator epoch is enforced when the HELLOs carry it, that is when evidence
older than the coordinator epoch is older than the announced epoch as well.
-/
namespace ServingObservatory
open Std

/-- The value of the last `set_epoch`, initially one. -/
def currentEpoch (ops : List CoordinatorOp) : UInt64 :=
  ops.foldl (fun e op => match op with | .setEpoch e' => e' | _ => e) 1

/-- The epoch of the latest HELLO of a key since the last reset. -/
def announcedEpoch (k : UInt64) (ops : List CoordinatorOp) : Option UInt64 :=
  ops.foldl (fun announced op => match op with
    | .registerHello h => if keyOf h.source h.worker = k then some h.epoch else announced
    | .reset => none
    | _ => announced) none

theorem run_epoch (ops : List CoordinatorOp) :
    (coordinatorMachine.run {} ops).epoch = currentEpoch ops := by
  induction ops using List.reverseRecOn with
  | nil => rfl
  | append_singleton ops op ih =>
    simp only [Machine.run_append, Machine.run_cons, Machine.run_nil, currentEpoch,
      List.foldl_append, List.foldl_cons, List.foldl_nil] at ih ⊢
    cases op with
    | setEpoch e => rfl
    | registerHello h => exact ih
    | reset => exact ih
    | ingest o =>
      rw [coordinatorMachine_next_ingest, ← ih]
      rcases Coordinator.ingest_cases (coordinatorMachine.run {} ops) o with
        ⟨-, -, h⟩ | ⟨-, -, -, h⟩ | ⟨-, -, a, -, -, h⟩ <;> rw [h] <;> rfl

/-- A registration leaves the epoch it was given in the record. -/
theorem HelloPayload.epoch_onSlot (h : HelloPayload) (slot : Option SourceAuthority) :
    (h.registration.onSlot slot).map SourceAuthority.epoch = some h.epoch := by
  cases slot with
  | none => rfl
  | some a =>
    cases hc : a.confirmedBy (Coordinator.helloObservation h) false <;>
      simp [HelloPayload.registration, RegistryOp.onSlot, hc, SourceAuthority.confirm,
        SourceAuthority.install]

/-- The epoch of a record is the one announced by its latest HELLO. -/
theorem record_epoch (k : UInt64) (ops : List CoordinatorOp) :
    ((coordinatorMachine.run {} ops).registry.byKey[k]?).map SourceAuthority.epoch =
      announcedEpoch k ops := by
  induction ops using List.reverseRecOn with
  | nil => simp [announcedEpoch]
  | append_singleton ops op ih =>
    simp only [Machine.run_append, Machine.run_cons, Machine.run_nil, announcedEpoch,
      List.foldl_append, List.foldl_cons, List.foldl_nil] at ih ⊢
    cases op with
    | setEpoch e => exact ih
    | reset => rfl
    | registerHello h =>
      simp only [coordinatorMachine_next_registerHello]
      by_cases hk : h.registration.key = k
      · rw [registryMachine_slot, if_pos hk, if_pos (h.registration_key ▸ hk)]
        exact h.epoch_onSlot _
      · rw [registryMachine_slot_of_ne _ hk, if_neg (h.registration_key ▸ hk)]
        exact ih
    | ingest o =>
      rw [coordinatorMachine_next_ingest]
      rcases Coordinator.ingest_cases (coordinatorMachine.run {} ops) o with
        ⟨-, -, h⟩ | ⟨-, -, -, h⟩ | ⟨-, -, a, hslot, -, h⟩
      · rw [h]
        exact ih
      · rw [h]
        exact ih
      · rw [h, ← ih, Coordinator.getElem?_byKey_admitted]
        split_ifs with hk
        · rw [← hk, hslot]
          rfl
        · rfl

/-- Where evidence older than the coordinator epoch is also older than the epoch
announced for its key, no observation older than the coordinator epoch is accepted. -/
theorem accepted_epoch_ge (ops : List CoordinatorOp)
    (h : ∀ before o after, ops = before ++ .ingest o :: after → o.epoch < currentEpoch before →
      ∀ e, announcedEpoch (keyOf o.source o.worker) before = some e → o.epoch < e) :
    ∀ before o after, ops = before ++ .ingest o :: after →
      ((coordinatorMachine.run {} before).ingest o).1.accepted = true →
      (coordinatorMachine.run {} before).epoch = currentEpoch before ∧
        currentEpoch before ≤ o.epoch := by
  intro before o after hops hacc
  refine ⟨run_epoch before, UInt64.not_lt.mp fun hold => ?_⟩
  rcases (coordinatorMachine.run {} before).ingest_cases o with
    ⟨-, hrej, -⟩ | ⟨-, hrej, -⟩ | ⟨-, -, a, hslot, hadm, -⟩
  · simp [hrej] at hacc
  · simp [hrej] at hacc
  · have hannounced := record_epoch (keyOf o.source o.worker) before
    rw [hslot, Option.map_some] at hannounced
    exact absurd (h before o after hops hold _ hannounced.symm) (UInt64.not_lt.mpr hadm.epoch)

/-- The HELLO and the observation of one source under the given epochs. -/
def helloAt (epoch : UInt64) : CoordinatorOp :=
  let hello : HelloPayload :=
    { source := ⟨⟨0, 1⟩⟩, worker := ⟨⟨0, 10⟩⟩, boot := ⟨⟨0, 17⟩⟩, srcGen := 1, obsGen := 1,
      epoch := epoch }
  .registerHello hello

def observationAt (epoch : UInt64) : Observation :=
  { id := ⟨⟨1, 0⟩⟩, source := ⟨⟨0, 1⟩⟩, worker := ⟨⟨0, 10⟩⟩, boot := ⟨⟨0, 17⟩⟩, srcGen := 1,
    obsGen := 1, epoch := epoch, seq := 1 }

/-- A HELLO that carries the coordinator epoch, and evidence of that epoch. -/
theorem accepted_epoch_ge_five :
    let before := [.setEpoch 5, helloAt 5]
    ((coordinatorMachine.run {} before).ingest (observationAt 5)).1.accepted = true ∧
      (coordinatorMachine.run {} before).epoch = currentEpoch before ∧
      currentEpoch before ≤ (observationAt 5).epoch := by
  refine ⟨by decide, accepted_epoch_ge [.setEpoch 5, helloAt 5, .ingest (observationAt 5)]
    (fun before o after hops => ?_) _ _ [] rfl (by decide)⟩
  match before with
  | [] => cases hops
  | [_] => cases hops
  | [_, _] =>
    cases hops
    intro hold
    exact absurd hold (by decide)
  | _ :: _ :: _ :: _ => simp at hops

/-- After `set_epoch 5` an observation of epoch 1 passes on the HELLO of epoch 1. -/
theorem accepted_before_epoch :
    ¬ ∀ before o, ((coordinatorMachine.run {} before).ingest o).1.accepted = true →
      (coordinatorMachine.run {} before).epoch ≤ o.epoch := fun h =>
  absurd (h [helloAt 1, .setEpoch 5] (observationAt 1) (by decide)) (by decide)

end ServingObservatory
