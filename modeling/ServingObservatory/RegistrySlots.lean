import ServingObservatory.SourceAuthority

/-!
# The registry as a family of slots

A registry is seen as one slot for each 64-bit key. A call acts on the slot of
its key alone, as `onSlot` says, and what a slot holds can be traced back to the
registrations and restarts of its key.
-/
namespace ServingObservatory
open Std

namespace RegistryOp

/-- Registrations and restarts, the calls that write an authority. -/
def installs : RegistryOp → Bool
  | registerSource .. => true
  | validate _ => false
  | markRestart .. => true

/-- The boot that a registration or restart makes current. -/
def newBoot? : RegistryOp → Option WorkerBootId
  | registerSource o _ _ => some o.boot
  | validate _ => none
  | markRestart _ _ newBoot _ => some newBoot

/-- The effect of a call on the slot of its key. -/
def onSlot : RegistryOp → Option SourceAuthority → Option SourceAuthority
  | registerSource o epoch force, some a =>
    if a.confirmedBy o force then some (a.confirm o epoch)
    else some (.install o epoch (a.restartCount + 1))
  | registerSource o epoch _, none => some (.install o epoch 0)
  | validate o, some a => if (a.rejection o).isNone then some (a.advance o) else some a
  | validate _, none => none
  | markRestart source worker newBoot epoch, slot =>
    some (.restart slot source worker newBoot epoch)

end RegistryOp

/-- A registration writes the record that `onSlot` gives and returns it. -/
theorem SourceRegistry.registerSource_eq (r : SourceRegistry) (o : Observation) (epoch : UInt64)
    (force : Bool) : ∃ a,
      (RegistryOp.registerSource o epoch force).onSlot r.byKey[keyOf o.source o.worker]? = some a ∧
      r.registerSource o epoch force = (.ok a, ⟨r.byKey.insert (keyOf o.source o.worker) a⟩) := by
  cases hslot : r.byKey[keyOf o.source o.worker]? with
  | none => exact ⟨_, rfl, by simp only [registerSource, hslot]⟩
  | some a =>
    cases hc : a.confirmedBy o force with
    | true =>
      exact ⟨a.confirm o epoch, by simp only [RegistryOp.onSlot, hc, if_true],
        by simp only [registerSource, hslot, hc, if_true]⟩
    | false =>
      exact ⟨.install o epoch (a.restartCount + 1),
        by simp only [RegistryOp.onSlot, hc, Bool.false_eq_true, if_false],
        by simp only [registerSource, hslot, hc, Bool.false_eq_true, if_false]⟩

/-- The registry is a family of independent slots: a call acts on the slot of
its key as `onSlot` says and leaves every other slot alone. -/
theorem registryMachine_slot (r : SourceRegistry) (op : RegistryOp) (k : UInt64) :
    (registryMachine.next r op).byKey[k]? =
      if op.key = k then op.onSlot r.byKey[k]? else r.byKey[k]? := by
  cases op with
  | registerSource o epoch force =>
    obtain ⟨a, hslot, hreg⟩ := r.registerSource_eq o epoch force
    simp only [Machine.next, registryMachine, hreg, RegistryOp.key, RegistryOp.pair]
    by_cases hk : keyOf o.source o.worker = k
    · subst hk
      simp [hslot]
    · simp [ExtTreeMap.getElem?_insert, hk]
  | validate o =>
    simp only [Machine.next, registryMachine, RegistryOp.key, RegistryOp.pair]
    by_cases hk : keyOf o.source o.worker = k
    · subst hk
      simp only [SourceRegistry.validate, if_true]
      cases hslot : r.byKey[keyOf o.source o.worker]? with
      | none => simp [RegistryOp.onSlot, hslot]
      | some a => cases hrej : a.rejection o <;> simp [RegistryOp.onSlot, hrej, hslot]
    · rcases r.validate_cases o with ⟨a, -, -, hval⟩ | ⟨d, -, hval, -⟩ <;>
        simp [hval, ExtTreeMap.getElem?_insert, hk]
  | markRestart source worker newBoot epoch =>
    simp only [Machine.next, registryMachine, SourceRegistry.markRestart, RegistryOp.key,
      RegistryOp.pair]
    by_cases hk : keyOf source worker = k
    · subst hk
      simp [RegistryOp.onSlot]
    · simp [ExtTreeMap.getElem?_insert, hk]

/-- The slot of a call after the call. -/
theorem registryMachine_slot_self (r : SourceRegistry) (op : RegistryOp) :
    (registryMachine.next r op).byKey[op.key]? = op.onSlot r.byKey[op.key]? := by
  rw [registryMachine_slot, if_pos rfl]

/-- The slots of the other keys after a call. -/
theorem registryMachine_slot_of_ne (r : SourceRegistry) {op : RegistryOp} {k : UInt64}
    (h : op.key ≠ k) : (registryMachine.next r op).byKey[k]? = r.byKey[k]? := by
  rw [registryMachine_slot, if_neg h]

theorem RegistryOp.isSome_onSlot (op : RegistryOp) {slot : Option SourceAuthority}
    (h : op.installs = true ∨ slot.isSome = true) : (op.onSlot slot).isSome = true := by
  cases op with
  | registerSource o epoch force =>
    cases slot with
    | none => rfl
    | some a => cases hc : a.confirmedBy o force <;> simp [onSlot, hc]
  | validate o =>
    cases slot with
    | none => simp [installs] at h
    | some a => cases hr : a.rejection o <;> simp [onSlot, hr]
  | markRestart source worker newBoot epoch => rfl

/-- One slot by itself: the calls of its key, one after the other. -/
def slotAfter (k : UInt64) (ops : List RegistryOp) (slot : Option SourceAuthority) :
    Option SourceAuthority :=
  (ops.filter (·.key = k)).foldl (fun slot op => op.onSlot slot) slot

@[simp] theorem slotAfter_cons (k : UInt64) (op : RegistryOp) (ops : List RegistryOp)
    (slot : Option SourceAuthority) : slotAfter k (op :: ops) slot =
      slotAfter k ops (if op.key = k then op.onSlot slot else slot) := by
  by_cases h : op.key = k <;> simp [slotAfter, h]

/-- A run of the registry is a run of every slot by itself. -/
theorem run_slot (r : SourceRegistry) (ops : List RegistryOp) (k : UInt64) :
    (registryMachine.run r ops).byKey[k]? = slotAfter k ops r.byKey[k]? := by
  induction ops generalizing r with
  | nil => rfl
  | cons op ops ih => rw [Machine.run_cons, ih, registryMachine_slot, slotAfter_cons]

/-- No call removes a record. -/
theorem isSome_slotAfter (k : UInt64) (ops : List RegistryOp) {slot : Option SourceAuthority}
    (h : slot.isSome = true) : (slotAfter k ops slot).isSome = true := by
  induction ops generalizing slot with
  | nil => exact h
  | cons op ops ih =>
    rw [slotAfter_cons]
    split_ifs
    · exact ih (op.isSome_onSlot (.inr h))
    · exact ih h

theorem slot_persists {r : SourceRegistry} {k : UInt64} (h : ∃ a, r.byKey[k]? = some a)
    (ops : List RegistryOp) : ∃ a, (registryMachine.run r ops).byKey[k]? = some a := by
  rw [← Option.isSome_iff_exists] at h ⊢
  rw [run_slot]
  exact isSome_slotAfter k ops h

theorem slot_of_installs {ops : List RegistryOp} {op : RegistryOp} (hop : op ∈ ops)
    (hinst : op.installs = true) :
    ∃ a, (registryMachine.run {} ops).byKey[op.key]? = some a := by
  obtain ⟨first, second, rfl⟩ := List.append_of_mem hop
  rw [Machine.run_append, Machine.run_cons]
  refine slot_persists (Option.isSome_iff_exists.mp ?_) second
  rw [registryMachine_slot_self]
  exact op.isSome_onSlot (.inl hinst)

/-- What a call does to an existing record of its key. -/
theorem onSlot_some (op : RegistryOp) (a : SourceAuthority) : ∃ b, op.onSlot (some a) = some b ∧
    match op with
    | .registerSource o epoch _ =>
      b.epoch = epoch ∧ b.srcGen = o.srcGen ∧ b.obsGen = o.obsGen ∧ b.boot = o.boot
    | .validate _ =>
      b.epoch = a.epoch ∧ b.srcGen = a.srcGen ∧ b.obsGen = a.obsGen ∧ b.boot = a.boot
    | .markRestart _ _ newBoot epoch =>
      b.epoch = epoch ∧ b.srcGen = a.srcGen + 1 ∧ b.obsGen = a.obsGen + 1 ∧ b.boot = newBoot := by
  cases op with
  | registerSource o epoch force =>
    cases hc : a.confirmedBy o force with
    | true =>
      obtain ⟨-, hboot, hsrc, hobs⟩ := (a.confirmedBy_iff o force).mp hc
      exact ⟨a.confirm o epoch, by simp only [RegistryOp.onSlot, hc, if_true],
        rfl, hsrc, hobs, hboot⟩
    | false =>
      exact ⟨.install o epoch (a.restartCount + 1),
        by simp only [RegistryOp.onSlot, hc, Bool.false_eq_true, if_false], rfl, rfl, rfl, rfl⟩
  | validate o =>
    cases hr : (a.rejection o).isNone with
    | true => exact ⟨a.advance o, by simp only [RegistryOp.onSlot, hr, if_true], rfl, rfl, rfl, rfl⟩
    | false =>
      exact ⟨a, by simp only [RegistryOp.onSlot, hr, Bool.false_eq_true, if_false],
        rfl, rfl, rfl, rfl⟩
  | markRestart source worker newBoot epoch => exact ⟨_, rfl, rfl, rfl, rfl, rfl⟩

theorem onSlot_none (op : RegistryOp) {b : SourceAuthority} (h : op.onSlot none = some b) :
    op.newBoot? = some b.boot := by
  cases op with
  | registerSource o epoch force => cases h; rfl
  | validate o => cases h
  | markRestart source worker newBoot epoch => cases h; rfl

/-- A call either names the boot it leaves current or leaves the boot alone. -/
theorem onSlot_boot (op : RegistryOp) (a : SourceAuthority) {b : SourceAuthority}
    (h : op.onSlot (some a) = some b) :
    op.newBoot? = some b.boot ∨ op.newBoot? = none ∧ b.boot = a.boot := by
  obtain ⟨c, hc, heff⟩ := onSlot_some op a
  obtain rfl : b = c := Option.some.inj (h.symm.trans hc)
  cases op with
  | registerSource o epoch force => exact .inl (congrArg some heff.2.2.2.symm)
  | validate o => exact .inr ⟨rfl, heff.2.2.2⟩
  | markRestart source worker newBoot epoch => exact .inl (congrArg some heff.2.2.2.symm)

/-- A call that names a boot leaves it current in the slot of its key. -/
theorem newBoot_current (r : SourceRegistry) {op : RegistryOp} {b : WorkerBootId}
    (h : op.newBoot? = some b) :
    ∃ a, (registryMachine.next r op).byKey[op.key]? = some a ∧ a.boot = b := by
  rw [registryMachine_slot_self]
  cases hslot : r.byKey[op.key]? with
  | none =>
    cases op with
    | registerSource o epoch force => exact ⟨_, rfl, Option.some.inj h⟩
    | validate o => cases h
    | markRestart source worker newBoot epoch => exact ⟨_, rfl, Option.some.inj h⟩
  | some a =>
    obtain ⟨c, hc, -⟩ := onSlot_some op a
    rcases onSlot_boot op a hc with hb | ⟨hb, -⟩
    · exact ⟨c, hc, Option.some.inj (hb.symm.trans h)⟩
    · rw [h] at hb
      cases hb

/-- The boots named by the registrations and restarts of one key. -/
def bootsOf (k : UInt64) (ops : List RegistryOp) : List WorkerBootId :=
  (ops.filter (·.key = k)).filterMap RegistryOp.newBoot?

theorem mem_bootsOf {k : UInt64} {ops : List RegistryOp} {b : WorkerBootId} :
    b ∈ bootsOf k ops ↔ ∃ op ∈ ops, op.key = k ∧ op.newBoot? = some b := by
  simp [bootsOf, and_assoc]

/-- The current boot of a key was named by an earlier call on that key. -/
theorem boot_mem_bootsOf (k : UInt64) (ops : List RegistryOp) :
    ∀ a, (registryMachine.run {} ops).byKey[k]? = some a → a.boot ∈ bootsOf k ops := by
  have h := registryMachine.history_induction (s := {})
    (I := fun t r => ∀ a, r.byKey[k]? = some a → a.boot ∈ bootsOf k (t.map Prod.fst))
    (by simp) (fun t r op ih b hb => ?_) ops
  · simpa using h
  · rw [List.map_append, List.map_singleton, mem_bootsOf]
    by_cases hk : op.key = k
    · subst hk
      rw [registryMachine_slot_self] at hb
      cases hslot : r.byKey[op.key]? with
      | none => exact ⟨op, by simp, rfl, onSlot_none op (hslot ▸ hb)⟩
      | some a =>
        rcases onSlot_boot op a (hslot ▸ hb) with hboot | ⟨-, hboot⟩
        · exact ⟨op, by simp, rfl, hboot⟩
        · obtain ⟨op', hop', hkey, hnew⟩ := mem_bootsOf.mp (ih a hslot)
          exact ⟨op', by simp [hop'], hkey, hboot ▸ hnew⟩
    · rw [registryMachine_slot_of_ne r hk] at hb
      obtain ⟨op', hop', hkey, hnew⟩ := mem_bootsOf.mp (ih b hb)
      exact ⟨op', by simp [hop'], hkey, hnew⟩

/-- A record is there because a registration or restart of its key was made. -/
theorem exists_installs_of_slot (k : UInt64) (ops : List RegistryOp) {a : SourceAuthority}
    (ha : (registryMachine.run {} ops).byKey[k]? = some a) :
    ∃ op ∈ ops, op.installs = true ∧ op.key = k := by
  obtain ⟨op, hop, hkey, hnew⟩ := mem_bootsOf.mp (boot_mem_bootsOf k ops a ha)
  refine ⟨op, hop, ?_, hkey⟩
  cases op with
  | registerSource o epoch force => rfl
  | validate o => cases hnew
  | markRestart source worker newBoot epoch => rfl

end ServingObservatory
