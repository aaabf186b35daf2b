import ServingObservatory.RegistrySlots

/-!
# Isolation of sources under the 64-bit registry key

The registry is documented as keyed by source and worker, but it is keyed by a
64-bit mix of the two and never compares the stored identities. Calls on one pair
are invisible to another pair exactly when the mixes differ.
-/
namespace ServingObservatory
open Std

/-- The pair reads alike in both registries. -/
def SameView (r r' : SourceRegistry) (p : SourceId × WorkerId) : Prop :=
  r'.has p.1 p.2 = r.has p.1 p.2 ∧ r'.get p.1 p.2 = r.get p.1 p.2

theorem sameView_of_slot {r r' : SourceRegistry} {p : SourceId × WorkerId}
    (h : r'.byKey[keyOf p.1 p.2]? = r.byKey[keyOf p.1 p.2]?) : SameView r r' p := by
  refine ⟨?_, by rw [SourceRegistry.get, SourceRegistry.get, h]⟩
  rw [Bool.eq_iff_iff, SourceRegistry.has_iff, SourceRegistry.has_iff, h]

/-- In the registry that `ops` leaves, a call on one pair changes nothing that
another pair reads, and only a pair registered or restarted in `ops` is accepted. -/
def Isolated (ops : List RegistryOp) : Prop :=
  (∀ op p, op.pair ≠ p → SameView (registryMachine.run {} ops)
    (registryMachine.next (registryMachine.run {} ops) op) p) ∧
  ∀ o : Observation, ((registryMachine.run {} ops).validate o).1.1 = .accepted →
    ∃ op ∈ ops, op.installs = true ∧ op.pair = (o.source, o.worker)

/-- A restart of `p` is visible to every pair that shares the key of `p`. -/
theorem not_sameView_restart (r : SourceRegistry) {p p' : SourceId × WorkerId}
    (h : keyOf p.1 p.2 = keyOf p'.1 p'.2) : ∃ op : RegistryOp, op.pair = p ∧
      ¬ SameView r (registryMachine.next r op) p' := by
  let epoch := (r.get p'.1 p'.2).epoch + 1
  refine ⟨.markRestart p.1 p.2 {} epoch, rfl, fun hview => ?_⟩
  have hslot := registryMachine_slot_self r (.markRestart p.1 p.2 {} epoch)
  change _[keyOf p.1 p.2]? =
    some (SourceAuthority.restart r.byKey[keyOf p.1 p.2]? p.1 p.2 {} epoch) at hslot
  rw [h] at hslot
  have hepoch : ∀ previous, (SourceAuthority.restart previous p.1 p.2 {} epoch).epoch = epoch := by
    intro previous
    cases previous <;> rfl
  have hget := hview.2
  rw [SourceRegistry.get_of_slot hslot] at hget
  have hsucc := (hepoch _).symm.trans (congrArg SourceAuthority.epoch hget)
  simp [epoch] at hsucc

/-- Some observation passes under a record unless its last sequence number is
the largest one. -/
theorem exists_admits {a : SourceAuthority} (h : a.lastSeq ≠ 0xFFFFFFFFFFFFFFFF)
    (p : SourceId × WorkerId) : ∃ o : Observation, (o.source, o.worker) = p ∧ a.Admits o := by
  let o : Observation :=
    { source := p.1, worker := p.2, boot := a.boot, srcGen := a.srcGen, obsGen := a.obsGen,
      epoch := a.epoch, seq := 0xFFFFFFFFFFFFFFFF }
  refine ⟨o, rfl, UInt64.le_refl _, rfl, rfl, rfl, .inl ?_⟩
  have hlt := a.lastSeq.toNat_lt
  rw [ne_eq, ← UInt64.toNat_inj] at h
  rw [UInt64.lt_iff_toNat_lt]
  simp only [o, UInt64.reduceToNat] at h ⊢
  omega

theorem SourceAuthority.Admits.lastSeq_ne {a : SourceAuthority} {o : Observation}
    (h : a.Admits o) : a.lastSeq ≠ 0xFFFFFFFFFFFFFFFF := by
  intro hmax
  rcases h.seq with hlt | ⟨-, hz⟩
  · rw [hmax, UInt64.lt_iff_toNat_lt] at hlt
    have := o.seq.toNat_lt
    simp only [UInt64.reduceToNat] at hlt
    omega
  · rw [hmax] at hz
    exact absurd hz (by decide)

/-- No call of a pair changes what another pair sees exactly when their keys differ. -/
theorem sameView_iff_key_ne (r : SourceRegistry) (p p' : SourceId × WorkerId) :
    (∀ op : RegistryOp, op.pair = p → SameView r (registryMachine.next r op) p') ↔
      keyOf p.1 p.2 ≠ keyOf p'.1 p'.2 := by
  constructor
  · intro hsame hkey
    obtain ⟨op, hop, hne⟩ := not_sameView_restart r hkey
    exact hne (hsame op hop)
  · rintro hkey op rfl
    exact sameView_of_slot (registryMachine_slot_of_ne _ hkey)

/-- A pair is accepted on its own authority alone when it has one, when nobody has one under
its key, or when the shared record is used up. -/
theorem accepts_own_iff (ops : List RegistryOp) (p : SourceId × WorkerId) :
    (∀ o : Observation, (o.source, o.worker) = p →
      ((registryMachine.run {} ops).validate o).1.1 = .accepted →
        ∃ op ∈ ops, op.installs = true ∧ op.pair = p) ↔
      (∃ op ∈ ops, op.installs = true ∧ op.pair = p) ∨
      (∀ op ∈ ops, op.installs = true → op.key ≠ keyOf p.1 p.2) ∨
      ((registryMachine.run {} ops).get p.1 p.2).lastSeq = 0xFFFFFFFFFFFFFFFF := by
  constructor
  · intro hown
    by_cases hmax : ((registryMachine.run {} ops).get p.1 p.2).lastSeq = 0xFFFFFFFFFFFFFFFF
    · exact .inr (.inr hmax)
    · by_cases hnone : ∀ op ∈ ops, op.installs = true → op.key ≠ keyOf p.1 p.2
      · exact .inr (.inl hnone)
      · push Not at hnone
        obtain ⟨op, hop, hinst, hkey⟩ := hnone
        obtain ⟨a, hslot⟩ := slot_of_installs hop hinst
        rw [hkey] at hslot
        rw [SourceRegistry.get_of_slot hslot] at hmax
        obtain ⟨o, rfl, hadm⟩ := exists_admits hmax p
        exact .inl (hown o rfl ((SourceRegistry.validate_accepted_iff _ o).mpr ⟨a, hslot, hadm⟩))
  · rintro hcond o rfl hacc
    obtain ⟨a, hslot, hadm⟩ := (SourceRegistry.validate_accepted_iff _ o).mp hacc
    rcases hcond with hinst | hnone | hmax
    · exact hinst
    · obtain ⟨op, hop, hinst, hkey⟩ := exists_installs_of_slot _ ops hslot
      exact absurd hkey (hnone op hop hinst)
    · rw [SourceRegistry.get_of_slot hslot] at hmax
      exact absurd hmax hadm.lastSeq_ne

/-- Two pairs are isolated exactly when their keys differ, in every registry a
run can leave. The observations of a pair are accepted on its own authority alone
exactly when the pair was itself registered or restarted, or no pair with its key
was, or the record it shares has no sequence number left to accept. -/
theorem isolated_iff (ops : List RegistryOp) :
    (∀ p p' : SourceId × WorkerId,
      (∀ op : RegistryOp, op.pair = p → SameView (registryMachine.run {} ops)
          (registryMachine.next (registryMachine.run {} ops) op) p') ↔
        keyOf p.1 p.2 ≠ keyOf p'.1 p'.2) ∧
    ∀ p : SourceId × WorkerId,
      (∀ o : Observation, (o.source, o.worker) = p →
        ((registryMachine.run {} ops).validate o).1.1 = .accepted →
          ∃ op ∈ ops, op.installs = true ∧ op.pair = p) ↔
        (∃ op ∈ ops, op.installs = true ∧ op.pair = p) ∨
        (∀ op ∈ ops, op.installs = true → op.key ≠ keyOf p.1 p.2) ∨
        ((registryMachine.run {} ops).get p.1 p.2).lastSeq = 0xFFFFFFFFFFFFFFFF :=
  ⟨sameView_iff_key_ne _, accepts_own_iff ops⟩

example : keyOf ⟨⟨0, 1⟩⟩ ⟨⟨0, 10⟩⟩ = keyOf ⟨⟨0xa2598acb81de843f, 2⟩⟩ ⟨⟨0, 10⟩⟩ := by decide

/-- After the registration of one source alone, an observation of another source
with the same key, which was never registered, is accepted. -/
theorem not_isolated_collision : ¬ Isolated
    [.registerSource { source := ⟨⟨0xa2598acb81de843f, 2⟩⟩, worker := ⟨⟨0, 10⟩⟩ } 1 false] := by
  intro h
  obtain ⟨op, hop, -, hpair⟩ := h.2
    { source := ⟨⟨0, 1⟩⟩, worker := ⟨⟨0, 10⟩⟩, epoch := 1, seq := 1 } (by decide)
  rw [List.mem_singleton.mp hop] at hpair
  exact absurd hpair (by decide)

end ServingObservatory
