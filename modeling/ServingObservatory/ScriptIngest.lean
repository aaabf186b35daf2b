import ServingObservatory.ArrivalOrder
import ServingObservatory.LiveIndex
import ServingObservatory.ObservationIds
import ServingObservatory.ScriptParsing

/-!
# Ingesting a script

A script is ingested under one authority that is registered first. Its observations are numbered
one after the other, so that the authority admits each of them, and an observation is refused only
when an earlier one has its identity.
-/
namespace ServingObservatory
open Std

/-- What an authority is checked against and what an identity is derived from. -/
structure Envelope where
  source : SourceId
  worker : WorkerId
  boot : WorkerBootId
  srcGen : UInt64
  obsGen : UInt64
  epoch : UInt64
  seq : UInt64
  type : ObsType

def Observation.envelope (o : Observation) : Envelope :=
  ⟨o.source, o.worker, o.boot, o.srcGen, o.obsGen, o.epoch, o.seq, o.type⟩

section Observations
variable (build : ScriptEntry → UInt64 → Observation × UInt64)

/-- The observations of a script, numbered from the one that follows `seq`. -/
def scriptObservations : UInt64 → List ScriptItem → List Observation
  | _, [] => []
  | seq, .sleep _ :: items => scriptObservations seq items
  | seq, .obs e :: items => (build e seq).1 :: scriptObservations (build e seq).2 items

end Observations

/-- What `cmd_ingest` keeps while it goes through the entries. -/
structure IngestRun where
  coordinator : Coordinator
  seq : UInt64 := 0
  accepted : UInt64 := 0
  stale : UInt64 := 0

section Command
variable (atof : Str → F64)

/-- The HELLO of `cmd_ingest`. -/
def ingestHello (cfg : SourceConfig) : HelloPayload :=
  { source := cfg.source, worker := cfg.worker, boot := cfg.boot, srcGen := cfg.srcGen,
    obsGen := cfg.obsGen, epoch := cfg.epoch, clockDomain := lit "mono_ns" }

/-- The body of the loop over the entries. -/
def ingestItem (cfg : SourceConfig) (t : IngestRun) : ScriptItem → IngestRun
  | .sleep _ => t
  | .obs e =>
    let (o, seq) := ingestEntry atof cfg e t.seq
    let (ir, c) := t.coordinator.ingest o
    if ir.accepted then { coordinator := c, seq := seq, accepted := t.accepted + 1, stale := t.stale }
    else { coordinator := c, seq := seq, accepted := t.accepted, stale := t.stale + 1 }

/-- `cmd_ingest` on the items of a script, up to the archive. The configuration has the epoch. -/
def cmdIngest (cfg : SourceConfig) (items : List ScriptItem) : IngestRun :=
  items.foldl (ingestItem atof cfg)
    { coordinator := ((Coordinator.setEpoch {} cfg.epoch).registerHello (ingestHello cfg)).2 }

end Command

section Envelopes

theorem envelope_setField (o : Observation) (k : Str) (v : FieldValue) :
    (o.setField k v).envelope = o.envelope := rfl

theorem envelope_withRecvTs (o : Observation) (ts : UInt64) :
    { o with hasRecvTs := true, recvTs := ts }.envelope = o.envelope := rfl

theorem envelope_setScriptField (atof : Str → F64) (o : Observation) (k v : Str) :
    (setScriptField atof o k v).envelope = o.envelope := by
  simp only [setScriptField, apply_ite Observation.envelope, envelope_setField,
    envelope_withRecvTs, ite_self]

theorem envelope_withId (o : Observation) (i : ObservationId) :
    { o with id := i }.envelope = o.envelope := rfl

theorem envelope_mint (o : Observation) : o.mint.envelope = o.envelope := envelope_withId o _

/-- The fields of an entry leave the envelope alone. -/
theorem envelope_buildObservation (atof : Str → F64) (cfg : SourceConfig) (clock : Str)
    (e : ScriptEntry) (seq : UInt64) : (buildObservation atof cfg clock e seq).1.envelope =
      ⟨cfg.source, cfg.worker, cfg.boot, cfg.srcGen, cfg.obsGen, cfg.epoch, seq + 1, e.type⟩ := by
  have hfields : ∀ (l : List (Str × Str)) (o : Observation),
      (l.foldl (fun o p => setScriptField atof o p.1 p.2) o).envelope = o.envelope := by
    intro l
    induction l with
    | nil => exact fun o => rfl
    | cons p l ih => exact fun o => (ih _).trans (envelope_setScriptField atof o p.1 p.2)
  have hheader : (entryHeader cfg clock e seq).envelope =
      ⟨cfg.source, cfg.worker, cfg.boot, cfg.srcGen, cfg.obsGen, cfg.epoch, seq + 1, e.type⟩ := by
    unfold entryHeader
    split_ifs <;> rfl
  rw [buildObservation, envelope_mint, hfields, hheader]

end Envelopes

/-- The authority of the configuration, with a last number that is not beyond `seq`. -/
structure Enrolled (cfg : SourceConfig) (seq : UInt64) (a : SourceAuthority) : Prop where
  epoch : a.epoch = cfg.epoch
  srcGen : a.srcGen = cfg.srcGen
  obsGen : a.obsGen = cfg.obsGen
  boot : a.boot = cfg.boot
  lastSeq : a.lastSeq ≤ seq

/-- The source of the configuration is enrolled with the coordinator. -/
def EnrolledIn (cfg : SourceConfig) (seq : UInt64) (c : Coordinator) : Prop :=
  ∃ a, c.registry.byKey[keyOf cfg.source cfg.worker]? = some a ∧ Enrolled cfg seq a

section Steps
variable {cfg : SourceConfig} {seq : UInt64} {c : Coordinator} {o : Observation}

/-- The observation comes next under the authority of the configuration. -/
def Next (cfg : SourceConfig) (seq : UInt64) (o : Observation) : Prop :=
  o.envelope = ⟨cfg.source, cfg.worker, cfg.boot, cfg.srcGen, cfg.obsGen, cfg.epoch, seq + 1,
    o.type⟩

theorem lt_succ_of_ne_max (h : seq.toNat + 1 < 2 ^ 64) {n : UInt64} (hn : n ≤ seq) :
    n < seq + 1 := by
  have hle := UInt64.le_iff_toNat_le.mp hn
  rw [UInt64.lt_iff_toNat_lt, UInt64.toNat_add, UInt64.toNat_one, Nat.mod_eq_of_lt h]
  omega

theorem Enrolled.admits {a : SourceAuthority} (h : Enrolled cfg seq a)
    (hseq : seq.toNat + 1 < 2 ^ 64) (ho : Next cfg seq o) : a.Admits o := by
  simp only [Next, Observation.envelope, Envelope.mk.injEq] at ho
  obtain ⟨-, -, hboot, hsrc, hobs, hepoch, hnext, -⟩ := ho
  refine ⟨?_, hsrc.trans h.srcGen.symm, hobs.trans h.obsGen.symm, hboot.trans h.boot.symm,
    .inl ?_⟩
  · rw [hepoch, h.epoch]
    exact UInt64.le_refl _
  · rw [hnext]
    exact lt_succ_of_ne_max hseq h.lastSeq

/-- The next observation of an enrolled source is refused exactly as a duplicate, and the source
stays enrolled. -/
theorem EnrolledIn.ingest (h : EnrolledIn cfg seq c) (hseq : seq.toNat + 1 < 2 ^ 64)
    (ho : Next cfg seq o) :
    EnrolledIn cfg (seq + 1) (c.ingest o).2 ∧
      (c.accepted[o.id]? = none ∧ (c.ingest o).1.accepted = true ∧
          (c.ingest o).2.accepted = c.accepted.insert o.id o ∨
        (∃ o', c.accepted[o.id]? = some o') ∧ (c.ingest o).1.accepted = false ∧
          (c.ingest o).1.decision = duplicateIdCode ∧ (c.ingest o).2.accepted = c.accepted) := by
  obtain ⟨a, hslot, ha⟩ := h
  have hadmits := ha.admits hseq ho
  have hkey : keyOf o.source o.worker = keyOf cfg.source cfg.worker := by
    simp only [Next, Observation.envelope, Envelope.mk.injEq] at ho
    rw [ho.1, ho.2.1]
  have hmore : Enrolled cfg (seq + 1) a :=
    { ha with lastSeq := UInt64.le_of_lt (lt_succ_of_ne_max hseq ha.lastSeq) }
  cases hid : c.accepted[o.id]? with
  | some o' =>
    rw [Coordinator.ingest_of_duplicate hid]
    exact ⟨⟨a, hslot, hmore⟩, .inr ⟨⟨o', rfl⟩, rfl, rfl, rfl⟩⟩
  | none =>
    rw [Coordinator.ingest_of_admits hid (hkey ▸ hslot) hadmits]
    refine ⟨⟨a.advance o, ?_, ?_⟩, .inl ⟨rfl, rfl, rfl⟩⟩
    · rw [Coordinator.getElem?_byKey_admitted, if_pos hkey]
    · refine ⟨ha.epoch, ha.srcGen, ha.obsGen, ha.boot, ?_⟩
      have hnext := congrArg Envelope.seq ho
      rw [hadmits.lastSeq_advance, show o.seq = seq + 1 from hnext]
      exact UInt64.le_refl _

end Steps

namespace Coordinator

/-- Observations are ingested one after the other. -/
def ingestAll (c : Coordinator) (obs : List Observation) : Coordinator :=
  obs.foldl (fun c o => (c.ingest o).2) c

/-- What they are answered. -/
def ingestResults : Coordinator → List Observation → List IngestResult
  | _, [] => []
  | c, o :: obs => (c.ingest o).1 :: ingestResults (c.ingest o).2 obs

end Coordinator

/-- Each observation comes next after the one before it. -/
def Follows (cfg : SourceConfig) : UInt64 → List Observation → Prop
  | _, [] => True
  | seq, o :: obs => Next cfg seq o ∧ Follows cfg (seq + 1) obs

theorem follows_scriptObservations (atof : Str → F64) (cfg : SourceConfig) (clock : Str)
    (items : List ScriptItem) (seq : UInt64) :
    Follows cfg seq (scriptObservations (buildObservation atof cfg clock) seq items) := by
  induction items generalizing seq with
  | nil => trivial
  | cons i items ih =>
    cases i with
    | sleep ms => exact ih seq
    | obs e =>
      refine ⟨?_, ih (seq + 1)⟩
      have henv := envelope_buildObservation atof cfg clock e seq
      rw [Next, henv, show (buildObservation atof cfg clock e seq).1.type = e.type from
        congrArg Envelope.type henv]

section Runs
variable {cfg : SourceConfig} {seq : UInt64} {c : Coordinator} {obs : List Observation}

theorem toNat_succ (h : seq.toNat + 1 < 2 ^ 64) : (seq + 1).toNat = seq.toNat + 1 := by
  rw [UInt64.toNat_add, UInt64.toNat_one, Nat.mod_eq_of_lt h]

/-- The accepted evidence is that of the identities as they first appear. -/
theorem EnrolledIn.accepted_ingestAll (h : EnrolledIn cfg seq c)
    (hobs : Follows cfg seq obs) (hseq : seq.toNat + obs.length < 2 ^ 64) :
    (c.ingestAll obs).accepted = OrderedMap.emplaceAll c.accepted (obs.map fun o => (o.id, o)) := by
  induction obs generalizing seq c with
  | nil => rfl
  | cons o obs ih =>
    rw [List.length_cons] at hseq
    have hone : seq.toNat + 1 < 2 ^ 64 := by omega
    obtain ⟨hnext, hcases⟩ := h.ingest hone hobs.1
    have hinsert : (c.ingest o).2.accepted = c.accepted.insertIfNew o.id o := by
      rcases hcases with ⟨hnone, -, hacc⟩ | ⟨⟨o', hsome⟩, -, -, hacc⟩
      · rw [hacc, OrderedMap.insertIfNew_of_none hnone]
      · rw [hacc, OrderedMap.insertIfNew_of_some hsome]
    have hrest := ih hnext hobs.2 (by rw [toNat_succ hone]; omega)
    rw [hinsert] at hrest
    exact hrest

/-- An observation is accepted unless its identity has appeared. -/
theorem EnrolledIn.ingestResults (h : EnrolledIn cfg seq c) (hobs : Follows cfg seq obs)
    (hseq : seq.toNat + obs.length < 2 ^ 64) {k : ℕ} {o : Observation} (hk : obs[k]? = some o) :
    ∃ r, (c.ingestResults obs)[k]? = some r ∧
      (r.accepted = true ↔ c.accepted[o.id]? = none ∧ ∀ o' ∈ obs.take k, o'.id ≠ o.id) ∧
      (r.accepted = false → r.decision = duplicateIdCode) := by
  induction obs generalizing seq c k with
  | nil => cases hk
  | cons first obs ih =>
    rw [List.length_cons] at hseq
    have hone : seq.toNat + 1 < 2 ^ 64 := by omega
    obtain ⟨hnext, hcases⟩ := h.ingest hone hobs.1
    cases k with
    | zero =>
      obtain rfl := Option.some.inj hk
      refine ⟨_, rfl, ?_⟩
      rcases hcases with ⟨hnone, hacc, -⟩ | ⟨⟨o', hsome⟩, hacc, hdup, -⟩
      · simp [hnone, hacc]
      · simp [hsome, hacc, hdup]
    | succ k =>
      obtain ⟨r, hr, haccepted, hdup⟩ := ih hnext hobs.2 (by rw [toNat_succ hone]; omega) hk
      refine ⟨r, hr, haccepted.trans ?_, hdup⟩
      rw [List.take_succ_cons, List.forall_mem_cons, ← and_assoc]
      refine and_congr_left fun _ => ?_
      rcases hcases with ⟨hnone, -, hmap⟩ | ⟨⟨o', hsome⟩, -, -, hmap⟩
      · rw [hmap, ExtTreeMap.getElem?_insert]
        by_cases hid : first.id = o.id <;> simp [hid]
      · rw [hmap]
        refine ⟨fun hn => ⟨hn, ?_⟩, And.left⟩
        rintro hid
        rw [hid, hn] at hsome
        cases hsome

end Runs

/-- The registered configuration is enrolled. -/
theorem enrolledIn_ingestHello (cfg : SourceConfig) (epoch : UInt64) :
    EnrolledIn cfg 0 ((Coordinator.setEpoch {} epoch).registerHello (ingestHello cfg)).2 := by
  have hslot := registryMachine_slot_self (Coordinator.setEpoch {} epoch).registry
    (ingestHello cfg).registration
  have hempty : (Coordinator.setEpoch {} epoch).registry.byKey[
      (ingestHello cfg).registration.key]? = none := by
    simp [Coordinator.setEpoch]
  rw [hempty] at hslot
  refine ⟨_, hslot, rfl, rfl, rfl, rfl, ?_⟩
  exact UInt64.le_refl 0

section Whole
variable (atof : Str → F64) (cfg : SourceConfig)

theorem ofNat_countP_cons {α : Type*} (p : α → Bool) (a : α) (l : List α) (n : UInt64) :
    n + UInt64.ofNat ((a :: l).countP p) =
      (if p a then n + 1 else n) + UInt64.ofNat (l.countP p) := by
  cases h : p a with
  | true =>
    rw [List.countP_cons_of_pos h, if_pos rfl, Nat.add_comm, UInt64.ofNat_add, UInt64.add_assoc]
    rfl
  | false => rw [List.countP_cons_of_neg (by simp [h]), if_neg Bool.false_ne_true]

/-- The run of the command in terms of its observations. -/
theorem foldl_ingestItem (items : List ScriptItem) (t : IngestRun) :
    let obs := scriptObservations (ingestEntry atof cfg) t.seq items
    let results := t.coordinator.ingestResults obs
    let t' := items.foldl (ingestItem atof cfg) t
    t'.coordinator = t.coordinator.ingestAll obs ∧
      t'.accepted = t.accepted + UInt64.ofNat (results.countP (·.accepted)) ∧
      t'.stale = t.stale + UInt64.ofNat (results.countP (!·.accepted)) := by
  induction items generalizing t with
  | nil => simp [scriptObservations, Coordinator.ingestAll, Coordinator.ingestResults]
  | cons i items ih =>
    cases i with
    | sleep ms => exact ih t
    | obs e =>
      have hrest := ih (ingestItem atof cfg t (.obs e))
      have hseq : (ingestItem atof cfg t (.obs e)).seq = (ingestEntry atof cfg e t.seq).2 := by
        simp only [ingestItem, apply_ite IngestRun.seq, ite_self]
      have hcoordinator : (ingestItem atof cfg t (.obs e)).coordinator =
          (t.coordinator.ingest (ingestEntry atof cfg e t.seq).1).2 := by
        simp only [ingestItem, apply_ite IngestRun.coordinator, ite_self]
      rw [hseq, hcoordinator] at hrest
      obtain ⟨hc, haccepted, hstale⟩ := hrest
      refine ⟨hc, haccepted.trans ?_, hstale.trans ?_⟩
      · rw [scriptObservations, Coordinator.ingestResults, ofNat_countP_cons]
        simp only [ingestItem, apply_ite IngestRun.accepted]
      · rw [scriptObservations, Coordinator.ingestResults, ofNat_countP_cons]
        simp only [ingestItem, apply_ite IngestRun.stale, Bool.not_eq_true']
        cases (t.coordinator.ingest (ingestEntry atof cfg e t.seq).1).1.accepted <;> rfl

theorem minted_scriptObservations (clock : Str) (items : List ScriptItem) (seq : UInt64) :
    ∀ o ∈ scriptObservations (buildObservation atof cfg clock) seq items, o.Minted := by
  induction items generalizing seq with
  | nil => simp [scriptObservations]
  | cons i items ih =>
    cases i with
    | sleep ms => exact ih seq
    | obs e =>
      exact List.forall_mem_cons.mpr ⟨minted_buildObservation atof cfg clock e seq, ih _⟩

end Whole

section Identities
variable {cfg : SourceConfig} {obs : List Observation}

theorem Follows.envelope {seq : UInt64} (h : Follows cfg seq obs) {k : ℕ} {o : Observation}
    (hk : obs[k]? = some o) : Next cfg (seq + UInt64.ofNat k) o := by
  induction obs generalizing seq k with
  | nil => cases hk
  | cons first obs ih =>
    cases k with
    | zero =>
      obtain rfl := Option.some.inj hk
      simpa using h.1
    | succ k =>
      have hnext := ih h.2 hk
      rw [UInt64.add_assoc, ← UInt64.ofNat_one, ← UInt64.ofNat_add, Nat.add_comm 1] at hnext
      exact hnext

/-- The bytes of an origin up to the last two of its number, and the last four. -/
theorem Origin.bytes_split (a : Origin) : a.bytes =
    (a.source.toBytes ++ a.worker.toBytes ++ a.boot.toBytes ++
      BigEndian.bytes 6 (a.seq.toNat / 256 ^ 2)) ++
      (BigEndian.bytes 2 a.seq.toNat ++ BigEndian.bytes 2 a.type.code.toNat) ++ [] := by
  rw [Origin.bytes, BigEndian.bytes_add 6 2]
  simp only [List.append_assoc, List.append_nil]

/-- Numbers of one boot with the same upper six bytes do not collide, whatever is numbered. -/
theorem Origin.seq_eq_of_collides_low {a b : Origin} (hsource : a.source = b.source)
    (hworker : a.worker = b.worker) (hboot : a.boot = b.boot)
    (hhigh : a.seq.toNat / 256 ^ 2 = b.seq.toNat / 256 ^ 2) (h : a.Collides b) : a.seq = b.seq := by
  unfold Collides at h
  rw [a.bytes_split, b.bytes_split, hsource, hworker, hboot, hhigh] at h
  have hlow := Id128.eq_of_collide (by simp) (by simp) h
  obtain ⟨hseq, -⟩ := List.append_inj hlow (by simp)
  exact UInt64.toNat_inj.mp (BigEndian.eq_of_bytes_eq hhigh hseq)

/-- The identities of fewer than 2^16 observations in a row are different. -/
theorem Follows.nodup_ids (h : Follows cfg 0 obs) (hminted : ∀ o ∈ obs, o.Minted)
    (hlen : obs.length < 2 ^ 16) : (obs.map Observation.id).Nodup := by
  have hnumber : ∀ {k : ℕ} {o : Observation}, obs[k]? = some o →
      k < obs.length ∧ o.Minted ∧ o.origin.source = cfg.source.raw ∧
        o.origin.worker = cfg.worker.raw ∧ o.origin.boot = cfg.boot.raw ∧
        o.origin.seq.toNat = k + 1 := by
    intro k o hk
    obtain ⟨hlt, rfl⟩ := List.getElem?_eq_some_iff.mp hk
    have henv := h.envelope hk
    simp only [Next, Observation.envelope, Envelope.mk.injEq] at henv
    obtain ⟨hsource, hworker, hboot, -, -, -, hseq, -⟩ := henv
    refine ⟨hlt, hminted _ (List.getElem_mem hlt), congrArg Id.raw hsource,
      congrArg Id.raw hworker, congrArg Id.raw hboot, ?_⟩
    rw [Observation.origin, hseq, UInt64.zero_add, UInt64.toNat_add, UInt64.toNat_one,
      UInt64.toNat_ofNat_of_lt' (by simp only [UInt64.size]; omega), Nat.mod_eq_of_lt (by omega)]
  rw [List.nodup_iff_getElem?_ne_getElem?]
  intro i j hij hj heq
  rw [List.length_map] at hj
  obtain ⟨-, ha, hasource, haworker, haboot, haseq⟩ :=
    hnumber (List.getElem?_eq_getElem (hij.trans hj))
  obtain ⟨-, hb, hbsource, hbworker, hbboot, hbseq⟩ := hnumber (List.getElem?_eq_getElem hj)
  have hid : obs[i].id = obs[j].id := by
    simpa [List.getElem?_map, hij.trans hj, hj] using heq
  have hcollides := (Origin.id_eq_iff _ _).mp (ha.symm.trans (hid.trans hb))
  have hseq := Origin.seq_eq_of_collides_low (hasource.trans hbsource.symm)
    (haworker.trans hbworker.symm) (haboot.trans hbboot.symm) (by rw [haseq, hbseq]; omega)
    hcollides
  have hnat := congrArg UInt64.toNat hseq
  omega

end Identities

namespace Coordinator

theorem acceptedCount_ingest (c : Coordinator) (o : Observation) :
    (c.ingest o).2.acceptedCount = c.acceptedCount + if (c.ingest o).1.accepted then 1 else 0 := by
  rcases c.ingest_cases o with ⟨-, hres, hnext⟩ | ⟨-, hres, -, hnext⟩ | ⟨hnone, hres, a, -, -, hnext⟩
  · rw [hnext, hres]
    rfl
  · rw [hnext, hres]
    rfl
  · rw [hnext, hres, acceptedCount_admitted hnone]
    rfl

theorem acceptedCount_ingestAll (c : Coordinator) (obs : List Observation) :
    (c.ingestAll obs).acceptedCount =
      c.acceptedCount + (c.ingestResults obs).countP (·.accepted) := by
  induction obs generalizing c with
  | nil => rfl
  | cons o obs ih =>
    have hrest := ih (c.ingest o).2
    rw [acceptedCount_ingest] at hrest
    rw [ingestResults, List.countP_cons, ← Nat.add_assoc, Nat.add_right_comm]
    exact hrest

@[simp] theorem length_ingestResults (c : Coordinator) (obs : List Observation) :
    (c.ingestResults obs).length = obs.length := by
  induction obs generalizing c with
  | nil => rfl
  | cons o obs ih => rw [ingestResults, List.length_cons, List.length_cons, ih]

end Coordinator

/-- What the ingestion of a script comes to. -/
structure IngestedWhole (first : Coordinator) (obs : List Observation) (t : IngestRun) : Prop where
  results : ∀ (k : ℕ) (o : Observation), obs[k]? = some o →
    ∃ r, (first.ingestResults obs)[k]? = some r ∧
      (r.accepted = true ↔ ∀ o' ∈ obs.take k, o'.id ≠ o.id) ∧
      (r.accepted = false → r.decision = duplicateIdCode)
  kept : ∀ id : ObservationId, t.coordinator.accepted[id]? = obs.find? (·.id = id)
  accepted : t.accepted.toNat = t.coordinator.acceptedCount
  stale : t.accepted.toNat + t.stale.toNat = obs.length
  short : obs.length < 2 ^ 16 → t.stale = 0 ∧ t.coordinator.allAccepted.Perm obs

section Ingestion
variable {cfg : SourceConfig} {first : Coordinator} {obs : List Observation}

theorem EnrolledIn.kept (h : EnrolledIn cfg 0 first) (hempty : first.accepted = ∅)
    (hobs : Follows cfg 0 obs) (hlen : obs.length < 2 ^ 64) (id : ObservationId) :
    (first.ingestAll obs).accepted[id]? = obs.find? (·.id = id) := by
  rw [h.accepted_ingestAll hobs (by simpa using hlen), OrderedMap.getElem?_emplaceAll_eq, hempty,
    List.find?_map, Option.map_map]
  simp [Function.comp_def]

/-- Observations of different identities are all kept. -/
theorem EnrolledIn.perm (h : EnrolledIn cfg 0 first) (hempty : first.accepted = ∅)
    (hobs : Follows cfg 0 obs) (hlen : obs.length < 2 ^ 64)
    (hids : (obs.map Observation.id).Nodup) : (first.ingestAll obs).allAccepted.Perm obs := by
  have hkeys : ((obs.map fun o => (o.id, o)).map Prod.fst).Nodup := by
    simpa [Function.comp_def] using hids
  have hperm := OrderedMap.toList_emplaceAll_perm (m := first.accepted) hkeys (by simp [hempty])
  have hnone : first.accepted.toList = [] := by
    rw [hempty]
    rfl
  rw [hnone, List.nil_append] at hperm
  rw [Coordinator.allAccepted, h.accepted_ingestAll hobs (by simpa using hlen)]
  simpa [Function.comp_def] using hperm.map Prod.snd

/-- Fewer than 2^16 observations are accepted one and all. -/
theorem EnrolledIn.accepts_all (h : EnrolledIn cfg 0 first) (hempty : first.accepted = ∅)
    (hobs : Follows cfg 0 obs) (hminted : ∀ o ∈ obs, o.Minted) (hlen : obs.length < 2 ^ 16) :
    ∀ r ∈ first.ingestResults obs, r.accepted = true := by
  intro r hr
  obtain ⟨k, hk, rfl⟩ := List.getElem_of_mem hr
  have hkobs : k < obs.length := by rwa [first.length_ingestResults] at hk
  obtain ⟨r, hresult, haccepted, -⟩ := h.ingestResults hobs (by rw [UInt64.toNat_zero]; omega)
    (List.getElem?_eq_getElem hkobs)
  obtain rfl : (first.ingestResults obs)[k] = r :=
    Option.some.inj ((List.getElem?_eq_getElem hk).symm.trans hresult)
  refine haccepted.mpr ⟨by simp [hempty], fun o' ho' hid => ?_⟩
  obtain ⟨j, hj, rfl⟩ := List.getElem_of_mem ho'
  rw [List.length_take, Nat.min_eq_left hkobs.le] at hj
  rw [List.getElem_take] at hid
  have hnodup := hobs.nodup_ids hminted hlen
  exact List.pairwise_iff_getElem.mp (List.pairwise_map.mp hnodup) j k (hj.trans hkobs) hkobs hj hid

theorem EnrolledIn.whole (h : EnrolledIn cfg 0 first) (hempty : first.accepted = ∅)
    (hobs : Follows cfg 0 obs) (hminted : ∀ o ∈ obs, o.Minted) (hlen : obs.length < 2 ^ 64)
    {t : IngestRun} (hc : t.coordinator = first.ingestAll obs)
    (haccepted : t.accepted = UInt64.ofNat ((first.ingestResults obs).countP (·.accepted)))
    (hstale : t.stale = UInt64.ofNat ((first.ingestResults obs).countP (!·.accepted))) :
    IngestedWhole first obs t := by
  have hall := List.length_eq_countP_add_countP (fun r : IngestResult => r.accepted)
    (l := first.ingestResults obs)
  simp only [first.length_ingestResults, Bool.decide_eq_true, Bool.not_eq_true,
    ← Bool.not_eq_true'] at hall
  have hnone : first.acceptedCount = 0 := by
    rw [Coordinator.acceptedCount, hempty, ExtTreeMap.size_empty]
  have hcount := first.acceptedCount_ingestAll obs
  rw [hnone, Nat.zero_add] at hcount
  have hfit : ∀ n ≤ obs.length, (UInt64.ofNat n).toNat = n := fun n hn =>
    UInt64.toNat_ofNat_of_lt' (hn.trans_lt hlen)
  refine
    { results := fun k o hk => ?_
      kept := hc ▸ h.kept hempty hobs hlen
      accepted := ?_
      stale := ?_
      short := fun hshort => ⟨?_, hc ▸ h.perm hempty hobs hlen (hobs.nodup_ids hminted hshort)⟩ }
  · simpa [hempty] using h.ingestResults hobs (by simpa using hlen) hk
  · rw [haccepted, hc, hcount, hfit _ (by omega)]
  · rw [haccepted, hstale, hfit _ (by omega), hfit _ (by omega)]
    omega
  · have hnone : (first.ingestResults obs).countP (!·.accepted) = 0 :=
      List.countP_eq_zero.mpr fun r hr => by
        simp [h.accepts_all hempty hobs hminted hshort r hr]
    rw [hstale, hnone]
    rfl

end Ingestion

section Script
variable (atof : Str → F64) (cfg : SourceConfig) (items : List ScriptItem)

/-- Of the observations of a script the first of each identity is accepted, and any other is
refused as its duplicate. A script of fewer than 2^16 observations is kept as a whole. -/
theorem script_ingested_whole
    (hlen : (scriptObservations (ingestEntry atof cfg) 0 items).length < 2 ^ 64) :
    IngestedWhole ((Coordinator.setEpoch {} cfg.epoch).registerHello (ingestHello cfg)).2
      (scriptObservations (ingestEntry atof cfg) 0 items) (cmdIngest atof cfg items) := by
  obtain ⟨hc, haccepted, hstale⟩ := foldl_ingestItem atof cfg items
    { coordinator := ((Coordinator.setEpoch {} cfg.epoch).registerHello (ingestHello cfg)).2 }
  rw [UInt64.zero_add] at haccepted hstale
  exact (enrolledIn_ingestHello cfg cfg.epoch).whole rfl
    (follows_scriptObservations atof cfg (lit "mono_ns") items 0)
    (minted_scriptObservations atof cfg (lit "mono_ns") items 0) hlen hc haccepted hstale

end Script

/-- Two requests with a pause between them. -/
def pausedRequests : List ScriptItem := [.obs { type := .request }, .sleep 5, .obs twelveTokens]

theorem script_ingested_whole_paused :
    IngestedWhole ((Coordinator.setEpoch {} 1).registerHello (ingestHello {})).2
      (scriptObservations (ingestEntry (fun _ => ⟨0⟩) {}) 0 pausedRequests)
      (cmdIngest (fun _ => ⟨0⟩) {} pausedRequests) :=
  script_ingested_whole _ {} pausedRequests (by
    rw [show (scriptObservations (ingestEntry (fun _ => ⟨0⟩) {}) 0 pausedRequests).length = 2 from
      rfl]
    decide)

end ServingObservatory
