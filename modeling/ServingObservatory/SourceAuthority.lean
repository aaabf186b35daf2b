import ServingObservatory.Observation
import ServingObservatory.Machine

/-!
# The source authority registry

A registry maps the 64-bit mix of a source and a worker identity to the
authority currently held for it. Registration, restart and validation read and
write the entry of one key, chosen by `keyOf`, and validation either rejects
with the first failing check or advances the record.
-/
namespace ServingObservatory
open Std

inductive AuthorityDecision
  | accepted | staleEpoch | staleSourceGeneration | staleObservationGeneration | staleBoot
  | duplicateSequence | outOfOrderSequence | unregisteredSource | freshButDownhealth
  deriving DecidableEq, Repr

def AuthorityDecision.code (d : AuthorityDecision) : UInt8 := UInt8.ofNat d.ctorIdx

structure SourceAuthority where
  source : SourceId := {}
  worker : WorkerId := {}
  epoch : UInt64 := 0
  srcGen : UInt64 := 0
  obsGen : UInt64 := 0
  boot : WorkerBootId := {}
  lastSeq : UInt64 := 0
  lastObsTs : UInt64 := 0
  hasLastTs : Bool := false
  health : SourceHealth := .unknown
  registered : Bool := false
  restartCount : Int32 := 0
  deriving DecidableEq

structure SourceRegistry where
  byKey : ExtTreeMap UInt64 SourceAuthority := ∅

/-- The 64-bit combining key over both halves of both identities. -/
def keyOf (s : SourceId) (w : WorkerId) : UInt64 :=
  let a : UInt64 := s.raw.hi ^^^ (s.raw.lo * 0x9e3779b97f4a7c15)
  let b : UInt64 := w.raw.hi ^^^ (w.raw.lo * 0x9e3779b97f4a7c15)
  a ^^^ (b + 0x9e3779b97f4a7c15 + (a <<< (6 : UInt64)) + (a >>> (2 : UInt64)))

namespace SourceAuthority

/-- The test under which `register_source` keeps the existing record. -/
def confirmedBy (a : SourceAuthority) (o : Observation) (forceReassignBoot : Bool) : Bool :=
  !forceReassignBoot && a.boot == o.boot && a.srcGen == o.srcGen && a.obsGen == o.obsGen

/-- The idempotent path of `register_source`. -/
def confirm (a : SourceAuthority) (o : Observation) (epoch : UInt64) : SourceAuthority :=
  { a with epoch := epoch, health := if o.hasHealth then o.health else a.health }

/-- The record `register_source` installs otherwise. -/
def install (o : Observation) (epoch : UInt64) (restartCount : Int32) : SourceAuthority :=
  { source := o.source, worker := o.worker, epoch := epoch, srcGen := o.srcGen,
    obsGen := o.obsGen, boot := o.boot, lastSeq := 0, hasLastTs := false,
    health := if o.hasHealth then o.health else .healthy, registered := true,
    restartCount := restartCount }

/-- The record `mark_restart` installs over the previous one, if any. -/
def restart (previous : Option SourceAuthority) (source : SourceId) (worker : WorkerId)
    (newBoot : WorkerBootId) (epoch : UInt64) : SourceAuthority :=
  let a : SourceAuthority :=
    { source, worker, epoch, boot := newBoot, lastSeq := 0, hasLastTs := false,
      health := .restarting, registered := true }
  match previous with
  | some p => { a with
      srcGen := p.srcGen + 1, obsGen := p.obsGen + 1, restartCount := p.restartCount + 1 }
  | none => { a with srcGen := 1, obsGen := 1, restartCount := 0 }

/-- The first failing check of `validate`, with its message. -/
def rejection (a : SourceAuthority) (o : Observation) : Option (AuthorityDecision × Str) :=
  if o.epoch < a.epoch then
    some (.staleEpoch,
      lit "stale epoch " ++ decimal o.epoch.toNat ++ lit " < " ++ decimal a.epoch.toNat)
  else if o.srcGen < a.srcGen then
    some (.staleSourceGeneration, lit "stale source generation " ++ decimal o.srcGen.toNat ++
      lit " < " ++ decimal a.srcGen.toNat)
  else if o.srcGen > a.srcGen then
    some (.staleSourceGeneration, lit "source generation ahead of authority; must re-register")
  else if o.obsGen < a.obsGen then
    some (.staleObservationGeneration, lit "stale observation generation " ++
      decimal o.obsGen.toNat ++ lit " < " ++ decimal a.obsGen.toNat)
  else if o.obsGen > a.obsGen then
    some (.staleObservationGeneration,
      lit "observation generation ahead of authority; must re-register")
  else if o.boot ≠ a.boot then
    some (.staleBoot, lit "stale boot " ++ o.boot.toHex ++ lit " != current " ++ a.boot.toHex)
  else if o.seq < a.lastSeq then
    some (.outOfOrderSequence, lit "out-of-order sequence " ++ decimal o.seq.toNat ++
      lit " < last " ++ decimal a.lastSeq.toNat)
  else if o.seq = a.lastSeq ∧ a.lastSeq ≠ 0 then
    some (.duplicateSequence, lit "duplicate sequence " ++ decimal o.seq.toNat)
  else none

/-- The record after an accepted observation. -/
def advance (a : SourceAuthority) (o : Observation) : SourceAuthority :=
  { a with
    lastSeq := if o.seq > a.lastSeq then o.seq else a.lastSeq
    lastObsTs := if o.hasObsTs then o.obsTs else a.lastObsTs
    hasLastTs := if o.hasObsTs then true else a.hasLastTs
    health := if o.hasHealth then o.health else a.health }

/-- The envelope checks that an accepted observation has passed. -/
structure Admits (a : SourceAuthority) (o : Observation) : Prop where
  epoch : a.epoch ≤ o.epoch
  srcGen : o.srcGen = a.srcGen
  obsGen : o.obsGen = a.obsGen
  boot : o.boot = a.boot
  seq : a.lastSeq < o.seq ∨ o.seq = 0 ∧ a.lastSeq = 0

theorem rejection_eq_none_iff (a : SourceAuthority) (o : Observation) :
    a.rejection o = none ↔ a.Admits o := by
  constructor
  · intro h
    unfold rejection at h
    split_ifs at h with hepoch hsrc hsrc' hobs hobs' hboot hseq hdup
    exact ⟨UInt64.not_lt.mp hepoch,
      UInt64.le_antisymm (UInt64.not_lt.mp hsrc') (UInt64.not_lt.mp hsrc),
      UInt64.le_antisymm (UInt64.not_lt.mp hobs') (UInt64.not_lt.mp hobs),
      not_not.mp hboot, by grind⟩
  · rintro ⟨hepoch, hsrc, hobs, hboot, hseq⟩
    unfold rejection
    grind

/-- What holds for the result of every check holds for the first that fails. -/
theorem forall_mem_ite {α : Type} {P : α → Prop} {c : Prop} [Decidable c] {x : α} {y : Option α}
    (hx : P x) (hy : ∀ d ∈ y, P d) : ∀ d ∈ (if c then some x else y), P d := by
  intro d hd
  split at hd
  · exact Option.some.inj hd ▸ hx
  · exact hy d hd

theorem rejection_ne_accepted (a : SourceAuthority) (o : Observation) (reason : Str) :
    a.rejection o ≠ some (.accepted, reason) := by
  have hcode : ∀ d ∈ a.rejection o, d.1 ≠ .accepted := by
    unfold rejection
    iterate 8 refine forall_mem_ite (by simp) ?_
    exact fun d hd => by cases hd
  exact fun h => hcode _ h rfl

@[simp] theorem confirmedBy_iff (a : SourceAuthority) (o : Observation) (force : Bool) :
    a.confirmedBy o force = true ↔
      force = false ∧ a.boot = o.boot ∧ a.srcGen = o.srcGen ∧ a.obsGen = o.obsGen := by
  simp [confirmedBy, and_assoc]

theorem Admits.lastSeq_le {a : SourceAuthority} {o : Observation} (h : a.Admits o) :
    a.lastSeq ≤ o.seq := by
  rcases h.seq with hlt | ⟨hz, hl⟩
  · exact UInt64.le_of_lt hlt
  · rw [hz, hl]
    exact UInt64.le_refl _

/-- An admitted sequence number becomes the last one. -/
theorem Admits.lastSeq_advance {a : SourceAuthority} {o : Observation} (h : a.Admits o) :
    (a.advance o).lastSeq = o.seq := by
  rcases h.seq with hlt | ⟨hz, hl⟩
  · simp [advance, hlt]
  · simp [advance, hz, hl]

end SourceAuthority

namespace SourceRegistry

/-- The authority returned and the registry left; the code has no error path here. -/
def registerSource (r : SourceRegistry) (o : Observation) (epoch : UInt64)
    (forceReassignBoot : Bool) : Except Str SourceAuthority × SourceRegistry :=
  let k := keyOf o.source o.worker
  match r.byKey[k]? with
  | some a =>
    if a.confirmedBy o forceReassignBoot then
      (.ok (a.confirm o epoch), ⟨r.byKey.insert k (a.confirm o epoch)⟩)
    else
      let b := SourceAuthority.install o epoch (a.restartCount + 1)
      (.ok b, ⟨r.byKey.insert k b⟩)
  | none =>
    let b := SourceAuthority.install o epoch 0
    (.ok b, ⟨r.byKey.insert k b⟩)

/-- The decision with its message, and the registry left. -/
def validate (r : SourceRegistry) (o : Observation) :
    (AuthorityDecision × Str) × SourceRegistry :=
  let k := keyOf o.source o.worker
  match r.byKey[k]? with
  | none => ((.unregisteredSource,
      lit "source " ++ o.source.toHex ++ lit " worker " ++ o.worker.toHex ++
        lit " not registered"), r)
  | some a =>
    match a.rejection o with
    | some d => (d, r)
    | none => ((.accepted, []), ⟨r.byKey.insert k (a.advance o)⟩)

/-- Roll authority after a worker restart. -/
def markRestart (r : SourceRegistry) (source : SourceId) (worker : WorkerId)
    (newBoot : WorkerBootId) (epoch : UInt64) : SourceAuthority × SourceRegistry :=
  let k := keyOf source worker
  let a := SourceAuthority.restart r.byKey[k]? source worker newBoot epoch
  (a, ⟨r.byKey.insert k a⟩)

def has (r : SourceRegistry) (source : SourceId) (worker : WorkerId) : Bool :=
  r.byKey.contains (keyOf source worker)

/-- An unregistered pair reads as the default record. -/
def get (r : SourceRegistry) (source : SourceId) (worker : WorkerId) : SourceAuthority :=
  (r.byKey[keyOf source worker]?).getD {}

theorem has_iff (r : SourceRegistry) (source : SourceId) (worker : WorkerId) :
    r.has source worker = true ↔ ∃ a, r.byKey[keyOf source worker]? = some a := by
  rw [has, ExtTreeMap.contains_iff_mem, ← ExtTreeMap.isSome_getElem?_iff_mem,
    Option.isSome_iff_exists]

theorem get_of_slot {r : SourceRegistry} {source : SourceId} {worker : WorkerId}
    {a : SourceAuthority} (h : r.byKey[keyOf source worker]? = some a) :
    r.get source worker = a := by
  rw [get, h, Option.getD_some]

theorem validate_of_admits {r : SourceRegistry} {o : Observation} {a : SourceAuthority}
    (hslot : r.byKey[keyOf o.source o.worker]? = some a) (hadm : a.Admits o) :
    r.validate o =
      ((.accepted, []), ⟨r.byKey.insert (keyOf o.source o.worker) (a.advance o)⟩) := by
  simp [validate, hslot, (a.rejection_eq_none_iff o).mpr hadm]

/-- The decision depends on one slot of the registry. -/
theorem validate_congr {r r' : SourceRegistry} {o : Observation}
    (h : r.byKey[keyOf o.source o.worker]? = r'.byKey[keyOf o.source o.worker]?) :
    (r.validate o).1 = (r'.validate o).1 := by
  simp only [validate, h]
  cases r'.byKey[keyOf o.source o.worker]? with
  | none => rfl
  | some a => cases hrej : a.rejection o <;> simp only [hrej]

/-- Registries with the same slots are equal. -/
theorem ext_slot {r r' : SourceRegistry} (h : ∀ k : UInt64, r.byKey[k]? = r'.byKey[k]?) :
    r = r' := by
  cases r
  cases r'
  exact congrArg SourceRegistry.mk (ExtTreeMap.ext_getElem? fun {k} => h k)

/-- The two outcomes of a validation. -/
theorem validate_cases (r : SourceRegistry) (o : Observation) :
    (∃ a, r.byKey[keyOf o.source o.worker]? = some a ∧ a.Admits o ∧
      r.validate o = ((.accepted, []), ⟨r.byKey.insert (keyOf o.source o.worker) (a.advance o)⟩)) ∨
    ∃ d, d.1 ≠ .accepted ∧ r.validate o = (d, r) ∧
      ∀ a, r.byKey[keyOf o.source o.worker]? = some a → ¬ a.Admits o := by
  cases hslot : r.byKey[keyOf o.source o.worker]? with
  | none => exact .inr ⟨(.unregisteredSource, _), by simp, by rw [validate, hslot], by simp⟩
  | some a =>
    cases hrej : a.rejection o with
    | none =>
      have hadm := (a.rejection_eq_none_iff o).mp hrej
      exact .inl ⟨a, rfl, hadm, validate_of_admits hslot hadm⟩
    | some d =>
      refine .inr ⟨d, fun hd => ?_, by simp [validate, hslot, hrej], fun b hb hadm => ?_⟩
      · exact a.rejection_ne_accepted o d.2 (by rw [hrej, ← hd])
      · cases hb
        simp [(a.rejection_eq_none_iff o).mpr hadm] at hrej

theorem validate_accepted_iff (r : SourceRegistry) (o : Observation) :
    (r.validate o).1.1 = .accepted ↔
      ∃ a, r.byKey[keyOf o.source o.worker]? = some a ∧ a.Admits o := by
  rcases r.validate_cases o with ⟨a, hslot, hadm, hval⟩ | ⟨d, hd, hval, hno⟩
  · simp [hval, hslot, hadm]
  · simp only [hval, hd, false_iff]
    rintro ⟨a, hslot, hadm⟩
    exact hno a hslot hadm

/-- A rejected observation leaves the whole registry as it was. -/
theorem validate_rejected {r : SourceRegistry} {o : Observation}
    (h : (r.validate o).1.1 ≠ .accepted) : (r.validate o).2 = r := by
  rcases r.validate_cases o with ⟨a, -, -, hval⟩ | ⟨d, -, hval, -⟩
  · simp [hval] at h
  · rw [hval]

end SourceRegistry

/-- A call on the registry. -/
inductive RegistryOp
  | registerSource (o : Observation) (epoch : UInt64) (forceReassignBoot : Bool)
  | validate (o : Observation)
  | markRestart (source : SourceId) (worker : WorkerId) (newBoot : WorkerBootId) (epoch : UInt64)

inductive RegistryOut
  | registered (result : Except Str SourceAuthority)
  | decided (decision : AuthorityDecision) (reason : Str)
  | restarted (a : SourceAuthority)

namespace RegistryOp

/-- The source and worker named by a call. -/
def pair : RegistryOp → SourceId × WorkerId
  | registerSource o _ _ => (o.source, o.worker)
  | validate o => (o.source, o.worker)
  | markRestart source worker _ _ => (source, worker)

def key (op : RegistryOp) : UInt64 := keyOf op.pair.1 op.pair.2

end RegistryOp

def registryMachine : Machine SourceRegistry RegistryOp RegistryOut where
  step r
    | .registerSource o epoch force =>
      let (result, r') := r.registerSource o epoch force
      (r', .registered result)
    | .validate o =>
      let ((decision, reason), r') := r.validate o
      (r', .decided decision reason)
    | .markRestart source worker newBoot epoch =>
      let (a, r') := r.markRestart source worker newBoot epoch
      (r', .restarted a)

@[simp] theorem registryMachine_next_validate (r : SourceRegistry) (o : Observation) :
    registryMachine.next r (.validate o) = (r.validate o).2 := rfl

@[simp] theorem registryMachine_out_validate (r : SourceRegistry) (o : Observation) :
    registryMachine.out r (.validate o) = .decided (r.validate o).1.1 (r.validate o).1.2 := rfl

end ServingObservatory
