import ServingObservatory.RegistrySlots
import ServingObservatory.OrderedMap

/-!
# The coordinator

The reconstruction state: the registry, the accepted observations by identity,
the per-request index, the history of rejected evidence and three 32-bit
counters. Every call runs under one lock, so a run is a sequence of calls.
-/
namespace ServingObservatory
open Std

structure HelloPayload where
  source : SourceId := {}
  worker : WorkerId := {}
  boot : WorkerBootId := {}
  srcGen : UInt64 := 0
  obsGen : UInt64 := 0
  epoch : UInt64 := 0
  clockDomain : Str := []
  role : Str := []
  extra : Str := []
  deriving DecidableEq

structure IngestResult where
  accepted : Bool := false
  decision : UInt8 := 0
  reason : Str := []
  acceptedTotal : UInt32 := 0
  rejectedTotal : UInt32 := 0
  deriving DecidableEq

/-- `RejectKind::DUPLICATE_ID`. -/
def duplicateIdCode : UInt8 := 0xFF

structure Coordinator where
  epoch : UInt64 := 1
  registry : SourceRegistry := {}
  accepted : ExtTreeMap ObservationId Observation := ∅
  byRequest : ExtTreeMap RequestId (List Observation) := ∅
  stale : List (Observation × Str) := []
  acceptedTotal : UInt32 := 0
  staleTotal : UInt32 := 0
  duplicateTotal : UInt32 := 0

namespace Coordinator

def setEpoch (c : Coordinator) (e : UInt64) : Coordinator := { c with epoch := e }

/-- The observation through which a HELLO registers its source. -/
def helloObservation (h : HelloPayload) : Observation :=
  { type := .request, source := h.source, worker := h.worker, boot := h.boot, srcGen := h.srcGen,
    obsGen := h.obsGen, epoch := h.epoch, clockDomain := h.clockDomain }

def registerHello (c : Coordinator) (h : HelloPayload) : Except Str SourceAuthority × Coordinator :=
  let (result, registry) := c.registry.registerSource (helloObservation h) h.epoch false
  (result, { c with registry := registry })

def ingest (c : Coordinator) (o : Observation) : IngestResult × Coordinator :=
  if c.accepted.contains o.id then
    let reason := lit "duplicate observation id " ++ o.id.toHex
    let c' := { c with
      duplicateTotal := c.duplicateTotal + 1
      stale := c.stale ++ [(o, reason)] }
    ({ accepted := false, decision := duplicateIdCode, reason := reason,
       acceptedTotal := c'.acceptedTotal, rejectedTotal := c'.staleTotal }, c')
  else
    let ((d, reason), registry) := c.registry.validate o
    if d ≠ .accepted then
      let c' := { c with
        registry := registry
        staleTotal := c.staleTotal + 1
        stale := c.stale ++ [(o, reason)] }
      ({ accepted := false, decision := d.code, reason := reason,
         acceptedTotal := c'.acceptedTotal, rejectedTotal := c'.staleTotal }, c')
    else
      let rid := o.requestId
      let c' := { c with
        registry := registry
        accepted := c.accepted.insert o.id o
        byRequest := if !rid.isNull then c.byRequest.insert rid (c.byRequest.getD rid [] ++ [o])
          else c.byRequest
        acceptedTotal := c.acceptedTotal + 1 }
      ({ accepted := true, decision := AuthorityDecision.accepted.code, reason := [],
         acceptedTotal := c'.acceptedTotal, rejectedTotal := c'.staleTotal }, c')

/-- Clears everything but the coordinator epoch. -/
def reset (c : Coordinator) : Coordinator :=
  { c with
    accepted := ∅
    byRequest := ∅
    stale := []
    acceptedTotal := 0
    staleTotal := 0
    duplicateTotal := 0
    registry := {} }

def acceptedCount (c : Coordinator) : ℕ := c.accepted.size

def staleCount (c : Coordinator) : ℕ := c.stale.length

/-- The accepted observations in increasing identity order. -/
def allAccepted (c : Coordinator) : List Observation := c.accepted.toList.map Prod.snd

/-- The state after a duplicate identity. -/
def duplicated (c : Coordinator) (o : Observation) : Coordinator :=
  { c with
    duplicateTotal := c.duplicateTotal + 1
    stale := c.stale ++ [(o, lit "duplicate observation id " ++ o.id.toHex)] }

/-- The state after an authority rejection. -/
def rejected (c : Coordinator) (o : Observation) (reason : Str) : Coordinator :=
  { c with staleTotal := c.staleTotal + 1, stale := c.stale ++ [(o, reason)] }

/-- The per-request index after an acceptance. -/
def indexed (c : Coordinator) (o : Observation) : ExtTreeMap RequestId (List Observation) :=
  if !o.requestId.isNull then
    c.byRequest.insert o.requestId (c.byRequest.getD o.requestId [] ++ [o])
  else c.byRequest

/-- The state after an acceptance under the record `a`. -/
def admitted (c : Coordinator) (o : Observation) (a : SourceAuthority) : Coordinator :=
  { c with
    registry := ⟨c.registry.byKey.insert (keyOf o.source o.worker) (a.advance o)⟩
    accepted := c.accepted.insert o.id o
    byRequest := c.indexed o
    acceptedTotal := c.acceptedTotal + 1 }

theorem getElem?_accepted_admitted (c : Coordinator) (o : Observation) (a : SourceAuthority)
    (id : ObservationId) : (c.admitted o a).accepted[id]? =
      if o.id = id then some o else c.accepted[id]? := by
  simp [admitted, ExtTreeMap.getElem?_insert]

theorem getElem?_byKey_admitted (c : Coordinator) (o : Observation) (a : SourceAuthority)
    (k : UInt64) : (c.admitted o a).registry.byKey[k]? =
      if keyOf o.source o.worker = k then some (a.advance o) else c.registry.byKey[k]? := by
  simp [admitted, ExtTreeMap.getElem?_insert]

theorem contains_accepted_of_none {c : Coordinator} {id : ObservationId}
    (hid : c.accepted[id]? = none) : c.accepted.contains id = false := by
  rw [ExtTreeMap.contains_eq_isSome_getElem?, hid]
  rfl

theorem acceptedCount_admitted {c : Coordinator} {o : Observation} (hid : c.accepted[o.id]? = none)
    (a : SourceAuthority) : (c.admitted o a).acceptedCount = c.acceptedCount + 1 := by
  simp [admitted, acceptedCount, ExtTreeMap.size_insert, contains_accepted_of_none hid]

theorem ingest_of_duplicate {c : Coordinator} {o o' : Observation}
    (hid : c.accepted[o.id]? = some o') : c.ingest o =
      ({ accepted := false, decision := duplicateIdCode,
         reason := lit "duplicate observation id " ++ o.id.toHex,
         acceptedTotal := c.acceptedTotal, rejectedTotal := c.staleTotal }, c.duplicated o) := by
  have hdup : c.accepted.contains o.id = true := by
    rw [ExtTreeMap.contains_iff_mem, ← ExtTreeMap.isSome_getElem?_iff_mem, hid]
    rfl
  simp only [ingest, hdup, if_true, duplicated]

theorem ingest_of_rejected {c : Coordinator} {o : Observation} {d : AuthorityDecision × Str}
    (hid : c.accepted[o.id]? = none) (hd : d.1 ≠ .accepted)
    (hval : c.registry.validate o = (d, c.registry)) : c.ingest o =
      ({ accepted := false, decision := d.1.code, reason := d.2,
         acceptedTotal := c.acceptedTotal, rejectedTotal := c.staleTotal + 1 },
        c.rejected o d.2) := by
  simp [ingest, contains_accepted_of_none hid, hval, hd, rejected]

theorem ingest_of_admits {c : Coordinator} {o : Observation} {a : SourceAuthority}
    (hid : c.accepted[o.id]? = none)
    (hslot : c.registry.byKey[keyOf o.source o.worker]? = some a) (hadm : a.Admits o) :
    c.ingest o =
      ({ accepted := true, decision := AuthorityDecision.accepted.code, reason := [],
         acceptedTotal := c.acceptedTotal + 1, rejectedTotal := c.staleTotal },
        c.admitted o a) := by
  have hnew := contains_accepted_of_none hid
  have hval := SourceRegistry.validate_of_admits hslot hadm
  simp [ingest, hnew, hval, admitted, indexed]

/-- The three exits of `ingest`: what each needs, answers and leaves. -/
theorem ingest_cases (c : Coordinator) (o : Observation) :
    ((∃ o', c.accepted[o.id]? = some o') ∧ (c.ingest o).1.accepted = false ∧
      (c.ingest o).2 = c.duplicated o) ∨
    (c.accepted[o.id]? = none ∧ (c.ingest o).1.accepted = false ∧
      (c.registry.validate o).1.1 ≠ .accepted ∧
      (c.ingest o).2 = c.rejected o (c.registry.validate o).1.2) ∨
    (c.accepted[o.id]? = none ∧ (c.ingest o).1.accepted = true ∧
      ∃ a, c.registry.byKey[keyOf o.source o.worker]? = some a ∧ a.Admits o ∧
        (c.ingest o).2 = c.admitted o a) := by
  cases hid : c.accepted[o.id]? with
  | some o' =>
    rw [ingest_of_duplicate hid]
    exact .inl ⟨⟨o', rfl⟩, rfl, rfl⟩
  | none =>
    refine .inr ?_
    rcases c.registry.validate_cases o with ⟨a, hslot, hadm, -⟩ | ⟨d, hd, hval, -⟩
    · rw [ingest_of_admits hid hslot hadm]
      exact .inr ⟨rfl, rfl, a, hslot, hadm, rfl⟩
    · rw [ingest_of_rejected hid hd hval, hval]
      exact .inl ⟨rfl, rfl, hd, rfl⟩

end Coordinator

/-- A call on the coordinator. -/
inductive CoordinatorOp
  | setEpoch (e : UInt64)
  | registerHello (h : HelloPayload)
  | ingest (o : Observation)
  | reset

inductive CoordinatorOut
  | done
  | registered (result : Except Str SourceAuthority)
  | ingested (result : IngestResult)

def coordinatorMachine : Machine Coordinator CoordinatorOp CoordinatorOut where
  step c
    | .setEpoch e => (c.setEpoch e, .done)
    | .registerHello h => ((c.registerHello h).2, .registered (c.registerHello h).1)
    | .ingest o => ((c.ingest o).2, .ingested (c.ingest o).1)
    | .reset => (c.reset, .done)

@[simp] theorem coordinatorMachine_next_ingest (c : Coordinator) (o : Observation) :
    coordinatorMachine.next c (.ingest o) = (c.ingest o).2 := rfl

/-- The registry operation that a HELLO performs. -/
def HelloPayload.registration (h : HelloPayload) : RegistryOp :=
  .registerSource (Coordinator.helloObservation h) h.epoch false

@[simp] theorem HelloPayload.registration_key (h : HelloPayload) :
    h.registration.key = keyOf h.source h.worker := rfl

@[simp] theorem coordinatorMachine_next_registerHello (c : Coordinator) (h : HelloPayload) :
    coordinatorMachine.next c (.registerHello h) =
      { c with registry := registryMachine.next c.registry h.registration } := rfl

@[simp] theorem coordinatorMachine_out_ingest (c : Coordinator) (o : Observation) :
    coordinatorMachine.out c (.ingest o) = .ingested (c.ingest o).1 := rfl

end ServingObservatory
