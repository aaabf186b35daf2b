import ServingObservatory.RegistrySlots

/-!
# What a registry record says about the history of its key

A run of registrations, restarts and validations is summarised for one key by
the authority last installed or confirmed and by the sequence numbers accepted
since the record was last replaced. The record held for the key agrees with this
summary after every run, so each acceptance is sound for the latest registration.
-/
namespace ServingObservatory
open Std

/-- The summary of a history for one registry key. -/
structure KeyHistory where
  authority : Option SourceAuthority := none
  seqs : List UInt64 := []

namespace KeyHistory

/-- A registration that the latest authority confirms keeps the accepted
sequence numbers; any other one, and every restart, starts a new list. -/
def push (k : UInt64) (h : KeyHistory) : RegistryOp × RegistryOut → KeyHistory
  | (.registerSource o _ force, .registered (.ok a)) =>
    if keyOf o.source o.worker = k then
      ⟨some a, if h.authority.any (·.confirmedBy o force) then h.seqs else []⟩
    else h
  | (.markRestart source worker _ _, .restarted a) =>
    if keyOf source worker = k then ⟨some a, []⟩ else h
  | (.validate o, .decided .accepted _) =>
    if keyOf o.source o.worker = k then ⟨h.authority, h.seqs ++ [o.seq]⟩ else h
  | _ => h

/-- The record of a key has the envelope of the latest authority, and its last
sequence number bounds everything accepted since it was replaced. -/
def Agrees (h : KeyHistory) : Option SourceAuthority → Prop
  | none => h.authority = none ∧ h.seqs = []
  | some a => ∃ latest, h.authority = some latest ∧ a.boot = latest.boot ∧
      a.srcGen = latest.srcGen ∧ a.obsGen = latest.obsGen ∧ a.epoch = latest.epoch ∧
      ∀ q ∈ h.seqs, q ≤ a.lastSeq

end KeyHistory

def keyHistory (k : UInt64) (t : List (RegistryOp × RegistryOut)) : KeyHistory :=
  t.foldl (KeyHistory.push k) {}

theorem agrees_register {h : KeyHistory} {slot : Option SourceAuthority} (hagree : h.Agrees slot)
    (o : Observation) (epoch : UInt64) (force : Bool) {a : SourceAuthority}
    (ha : (RegistryOp.registerSource o epoch force).onSlot slot = some a) :
    KeyHistory.Agrees
      ⟨some a, if h.authority.any (·.confirmedBy o force) then h.seqs else []⟩ (some a) := by
  refine ⟨a, rfl, rfl, rfl, rfl, rfl, fun q hq => ?_⟩
  cases slot with
  | none =>
    simp [hagree.1] at hq
  | some b =>
    obtain ⟨latest, hlatest, hboot, hsrc, hobs, -, hseqs⟩ := hagree
    have hsame : latest.confirmedBy o force = b.confirmedBy o force := by
      simp only [SourceAuthority.confirmedBy, hboot, hsrc, hobs]
    cases hc : b.confirmedBy o force with
    | true =>
      simp only [RegistryOp.onSlot, hc, if_true, Option.some.injEq] at ha
      subst ha
      exact hseqs q (by simpa [hlatest, hsame, hc] using hq)
    | false => simp [hlatest, hsame, hc] at hq

theorem agrees_validate {h : KeyHistory} {a : SourceAuthority} (hagree : h.Agrees (some a))
    {o : Observation} (hadm : a.Admits o) :
    KeyHistory.Agrees ⟨h.authority, h.seqs ++ [o.seq]⟩ (some (a.advance o)) := by
  obtain ⟨latest, hlatest, hboot, hsrc, hobs, hepoch, hseqs⟩ := hagree
  refine ⟨latest, hlatest, hboot, hsrc, hobs, hepoch, fun q hq => ?_⟩
  rw [hadm.lastSeq_advance]
  rcases List.mem_append.mp hq with hold | hnew
  · exact UInt64.le_trans (hseqs q hold) hadm.lastSeq_le
  · rw [List.mem_singleton.mp hnew]
    exact UInt64.le_refl _

/-- One call keeps the summary of every key in agreement with its slot. -/
theorem agrees_step (k : UInt64) {h : KeyHistory} {r : SourceRegistry}
    (hagree : h.Agrees r.byKey[k]?) (op : RegistryOp) :
    (h.push k (op, registryMachine.out r op)).Agrees (registryMachine.next r op).byKey[k]? := by
  cases op with
  | registerSource o epoch force =>
    obtain ⟨a, hslot, hreg⟩ := r.registerSource_eq o epoch force
    simp only [Machine.out, Machine.next, registryMachine, hreg, KeyHistory.push]
    by_cases hk : keyOf o.source o.worker = k
    · subst hk
      simpa using agrees_register hagree o epoch force hslot
    · simpa [ExtTreeMap.getElem?_insert, hk] using hagree
  | validate o =>
    rw [registryMachine_out_validate, registryMachine_next_validate]
    rcases r.validate_cases o with ⟨a, hslot, hadm, hval⟩ | ⟨⟨d, reason⟩, hd, hval, -⟩
    · simp only [hval, KeyHistory.push]
      by_cases hk : keyOf o.source o.worker = k
      · subst hk
        rw [hslot] at hagree
        simpa using agrees_validate hagree hadm
      · simpa [ExtTreeMap.getElem?_insert, hk] using hagree
    · simp only [hval]
      cases d <;> first | exact hagree | exact absurd rfl hd
  | markRestart source worker newBoot epoch =>
    simp only [Machine.out, Machine.next, registryMachine, SourceRegistry.markRestart,
      KeyHistory.push]
    by_cases hk : keyOf source worker = k
    · subst hk
      simp [KeyHistory.Agrees]
    · simpa [ExtTreeMap.getElem?_insert, hk] using hagree

/-- After every run from the empty registry the records agree with the history. -/
theorem agrees_run (k : UInt64) (ops : List RegistryOp) :
    (keyHistory k (registryMachine.trace {} ops)).Agrees
      (registryMachine.run {} ops).byKey[k]? := by
  refine registryMachine.history_induction (I := fun t r => (keyHistory k t).Agrees r.byKey[k]?)
    (by simp [keyHistory, KeyHistory.Agrees]) (fun t r op hagree => ?_) ops
  simpa [keyHistory] using agrees_step k hagree op

/-- Acceptance is sound for the latest registration or restart of the key, and
any other decision leaves the whole registry as it was. -/
theorem validate_sound (ops : List RegistryOp) (o : Observation) :
    let r := registryMachine.run {} ops
    let h := keyHistory (keyOf o.source o.worker) (registryMachine.trace {} ops)
    ((r.validate o).1.1 = .accepted →
      (∃ latest, h.authority = some latest ∧ o.boot = latest.boot ∧ o.srcGen = latest.srcGen ∧
        o.obsGen = latest.obsGen ∧ latest.epoch ≤ o.epoch) ∧
      (∀ q ∈ h.seqs, q ≠ 0 → q < o.seq) ∧
      ((r.validate o).2.get o.source o.worker).lastSeq = o.seq) ∧
    ((r.validate o).1.1 ≠ .accepted → (r.validate o).2 = r) := by
  intro r h
  refine ⟨fun hacc => ?_, SourceRegistry.validate_rejected⟩
  rcases r.validate_cases o with ⟨a, hslot, hadm, hval⟩ | ⟨d, hd, hval, -⟩
  · have hagree : h.Agrees (some a) := hslot ▸ agrees_run (keyOf o.source o.worker) ops
    obtain ⟨latest, hlatest, hboot, hsrc, hobs, hepoch, hseqs⟩ := hagree
    refine ⟨⟨latest, hlatest, hadm.boot.trans hboot, hadm.srcGen.trans hsrc,
      hadm.obsGen.trans hobs, hepoch ▸ hadm.epoch⟩, fun q hq hne => ?_, ?_⟩
    · have hle := hseqs q hq
      have hseq := hadm.seq
      grind
    · simp [hval, SourceRegistry.get, hadm.lastSeq_advance]
  · rw [hval] at hacc
    exact absurd hacc hd

end ServingObservatory
