import ServingObservatory.RegistrySlots

/-!
# When authority only moves forward

The header asks a fresh boot to carry a new boot identity and strictly higher
generations. The registry checks neither, so a run moves forward exactly when its
callers do: every call on a registered key must itself respect that contract.
-/
namespace ServingObservatory
open Std

/-- Every call of a run keeps or raises the epoch and the generations of every
pair, a change of boot raises both generations, and a superseded boot stays so. -/
structure MovesForward (ops : List RegistryOp) : Prop where
  monotone : ∀ before op after, ops = before ++ op :: after → ∀ source worker,
    let a := (registryMachine.run {} before).get source worker
    let b := (registryMachine.run {} (before ++ [op])).get source worker
    a.epoch ≤ b.epoch ∧ a.srcGen ≤ b.srcGen ∧ a.obsGen ≤ b.obsGen
  strict : ∀ before op after, ops = before ++ op :: after → ∀ source worker,
    let a := (registryMachine.run {} before).get source worker
    let b := (registryMachine.run {} (before ++ [op])).get source worker
    (registryMachine.run {} before).has source worker = true → b.boot ≠ a.boot →
      a.srcGen < b.srcGen ∧ a.obsGen < b.obsGen
  superseded : ∀ first second third after, ops = first ++ second ++ third ++ after →
    ∀ source worker,
    let a := (registryMachine.run {} first).get source worker
    (registryMachine.run {} first).has source worker = true →
      ((registryMachine.run {} (first ++ second)).get source worker).boot ≠ a.boot →
      ((registryMachine.run {} (first ++ second ++ third)).get source worker).boot ≠ a.boot

/-- The condition on a call made after `before` in the registry `r`. A
registration of a key with a record carries an epoch and generations at least
those of the record, and with another boot strictly higher generations and a
boot that no earlier call named for the key. A restart carries such a boot and an
epoch, and its increments do not wrap. -/
def ForwardCall (before : List RegistryOp) (r : SourceRegistry) (op : RegistryOp) : Prop :=
  ∀ a, r.byKey[op.key]? = some a →
    match op with
    | .registerSource o epoch _ =>
      a.epoch ≤ epoch ∧ a.srcGen ≤ o.srcGen ∧ a.obsGen ≤ o.obsGen ∧
        (o.boot ≠ a.boot → a.srcGen < o.srcGen ∧ a.obsGen < o.obsGen ∧
          o.boot ∉ bootsOf op.key before)
    | .validate _ => True
    | .markRestart _ _ newBoot epoch =>
      a.epoch ≤ epoch ∧ a.srcGen ≠ 0xFFFFFFFFFFFFFFFF ∧ a.obsGen ≠ 0xFFFFFFFFFFFFFFFF ∧
        (newBoot ≠ a.boot → newBoot ∉ bootsOf op.key before)

theorem lt_add_one_iff (x : UInt64) : x < x + 1 ↔ x ≠ 0xFFFFFFFFFFFFFFFF := by
  have hx := x.toNat_lt
  rw [UInt64.lt_iff_toNat_lt, UInt64.toNat_add, ← UInt64.toNat_inj.ne]
  simp only [UInt64.reduceToNat]
  omega

theorem le_add_one_iff (x : UInt64) : x ≤ x + 1 ↔ x ≠ 0xFFFFFFFFFFFFFFFF := by
  have hx := x.toNat_lt
  rw [UInt64.le_iff_toNat_le, UInt64.toNat_add, ← UInt64.toNat_inj.ne]
  simp only [UInt64.reduceToNat]
  omega

/-- What a call that meets the condition does to a registered key. -/
theorem ForwardCall.slot {before : List RegistryOp} {r : SourceRegistry} {op : RegistryOp}
    (h : ForwardCall before r op) {k : UInt64} {a : SourceAuthority} (ha : r.byKey[k]? = some a) :
    ∃ b, (registryMachine.next r op).byKey[k]? = some b ∧
      (a.epoch ≤ b.epoch ∧ a.srcGen ≤ b.srcGen ∧ a.obsGen ≤ b.obsGen) ∧
      (b.boot ≠ a.boot →
        a.srcGen < b.srcGen ∧ a.obsGen < b.obsGen ∧ b.boot ∉ bootsOf k before) := by
  by_cases hk : op.key = k
  · subst hk
    obtain ⟨b, hb, heff⟩ := onSlot_some op a
    refine ⟨b, by rw [registryMachine_slot_self, ha, hb], ?_⟩
    have hcall := h a ha
    cases op with
    | registerSource o epoch force =>
      obtain ⟨rfl, hsrc, hobs, hboot⟩ := heff
      rw [hsrc, hobs, hboot]
      exact ⟨⟨hcall.1, hcall.2.1, hcall.2.2.1⟩, hcall.2.2.2⟩
    | validate o =>
      obtain ⟨hepoch, hsrc, hobs, hboot⟩ := heff
      rw [hepoch, hsrc, hobs, hboot]
      exact ⟨⟨UInt64.le_refl _, UInt64.le_refl _, UInt64.le_refl _⟩, fun hne => absurd rfl hne⟩
    | markRestart source worker newBoot epoch =>
      obtain ⟨rfl, hsrc, hobs, rfl⟩ := heff
      obtain ⟨hepoch, hsmax, homax, hboot⟩ := hcall
      rw [hsrc, hobs]
      exact ⟨⟨hepoch, (le_add_one_iff _).mpr hsmax, (le_add_one_iff _).mpr homax⟩, fun hne =>
        ⟨(lt_add_one_iff _).mpr hsmax, (lt_add_one_iff _).mpr homax, hboot hne⟩⟩
  · exact ⟨a, by rw [registryMachine_slot_of_ne r hk, ha],
      ⟨UInt64.le_refl _, UInt64.le_refl _, UInt64.le_refl _⟩, fun hne => absurd rfl hne⟩

/-- Every call of `ops` meets the condition where it is made. -/
def ForwardCalls (ops : List RegistryOp) : Prop :=
  ∀ before op after, ops = before ++ op :: after →
    ForwardCall before (registryMachine.run {} before) op

/-- Under the condition a boot that was current and has been replaced stays away. -/
theorem ForwardCalls.superseded {first second : List RegistryOp} {k : UInt64}
    {a c : SourceAuthority} (ha : (registryMachine.run {} first).byKey[k]? = some a)
    (hc : (registryMachine.run {} (first ++ second)).byKey[k]? = some c) (hne : c.boot ≠ a.boot)
    (third : List RegistryOp) (h : ForwardCalls (first ++ second ++ third)) :
    ∃ d, (registryMachine.run {} (first ++ second ++ third)).byKey[k]? = some d ∧
      d.boot ≠ a.boot := by
  induction third using List.reverseRecOn with
  | nil => exact ⟨c, by simpa using hc, hne⟩
  | append_singleton third op ih =>
    obtain ⟨d, hd, hda⟩ := ih fun before op' after hb =>
      h before op' (after ++ [op]) (by rw [← List.append_assoc, hb]; simp)
    obtain ⟨e, he, -, hnew⟩ := (h (first ++ second ++ third) op [] (by simp)).slot hd
    refine ⟨e, by rw [← List.append_assoc, Machine.run_append]; exact he, fun hea => ?_⟩
    by_cases hed : e.boot = d.boot
    · exact hda (hed.symm.trans hea)
    · refine (hnew hed).2.2 ?_
      obtain ⟨op', hop', hkey, hboot⟩ := mem_bootsOf.mp (boot_mem_bootsOf k first a ha)
      exact mem_bootsOf.mpr ⟨op', by simp [hop'], hkey, hea ▸ hboot⟩

theorem ForwardCalls.movesForward {ops : List RegistryOp} (h : ForwardCalls ops) :
    MovesForward ops where
  monotone := by
    intro before op after hops source worker a b
    cases hslot : (registryMachine.run {} before).byKey[keyOf source worker]? with
    | none =>
      have ha : a = {} := by simp [a, SourceRegistry.get, hslot]
      rw [ha]
      exact ⟨UInt64.zero_le, UInt64.zero_le, UInt64.zero_le⟩
    | some c =>
      obtain ⟨d, hd, hle, -⟩ := (h before op after hops).slot hslot
      have ha : a = c := SourceRegistry.get_of_slot hslot
      have hb : b = d := SourceRegistry.get_of_slot (by rw [Machine.run_append]; exact hd)
      rw [ha, hb]
      exact hle
  strict := by
    intro before op after hops source worker a b hhas hne
    obtain ⟨c, hslot⟩ := (SourceRegistry.has_iff ..).mp hhas
    obtain ⟨d, hd, -, hlt⟩ := (h before op after hops).slot hslot
    have ha : a = c := SourceRegistry.get_of_slot hslot
    have hb : b = d := SourceRegistry.get_of_slot (by rw [Machine.run_append]; exact hd)
    rw [ha, hb] at hne ⊢
    exact ⟨(hlt hne).1, (hlt hne).2.1⟩
  superseded := by
    intro first second third after hops source worker a hhas hne
    have hprefix : ForwardCalls (first ++ second ++ third) := fun before op rest hb =>
      h before op (rest ++ after) (by rw [hops, hb]; simp)
    obtain ⟨c, hslot⟩ := (SourceRegistry.has_iff ..).mp hhas
    obtain ⟨d, hd⟩ := slot_persists ⟨c, hslot⟩ second
    rw [← Machine.run_append] at hd
    have ha : a = c := SourceRegistry.get_of_slot hslot
    rw [SourceRegistry.get_of_slot hd, ha] at hne
    obtain ⟨e, he, hea⟩ := ForwardCalls.superseded hslot hd hne third hprefix
    rw [SourceRegistry.get_of_slot he, ha]
    exact hea

/-- A boot that replaces another one in a run that moves forward was not named before. -/
theorem MovesForward.boot_fresh {ops before after : List RegistryOp} {op : RegistryOp}
    (h : MovesForward ops) (hops : ops = before ++ op :: after) {a b : SourceAuthority}
    (ha : (registryMachine.run {} before).byKey[op.key]? = some a)
    (hb : (registryMachine.run {} (before ++ [op])).byKey[op.key]? = some b)
    (hne : b.boot ≠ a.boot) : b.boot ∉ bootsOf op.key before := by
  intro hmem
  obtain ⟨op', hop', hkey, hnew⟩ := mem_bootsOf.mp hmem
  obtain ⟨first, second, rfl⟩ := List.append_of_mem hop'
  -- after the call that named it the boot was current, and it was then superseded
  obtain ⟨c, hc, hcb⟩ := newBoot_current (registryMachine.run {} first) hnew
  rw [hkey, ← Machine.run_nil registryMachine (Machine.next _ _ _), ← Machine.run_cons,
    ← Machine.run_append] at hc
  rw [← List.singleton_append, ← List.append_assoc] at ha hb hops
  have hsup := h.superseded (first ++ [op']) second [op] after (by simpa using hops)
    op.pair.1 op.pair.2 ((SourceRegistry.has_iff ..).mpr ⟨c, hc⟩)
  rw [SourceRegistry.get_of_slot hc, SourceRegistry.get_of_slot ha,
    SourceRegistry.get_of_slot hb, hcb] at hsup
  exact hsup hne.symm rfl

theorem MovesForward.forwardCalls {ops : List RegistryOp} (h : MovesForward ops) :
    ForwardCalls ops := by
  intro before op after hops a ha
  obtain ⟨b, hb, heff⟩ := onSlot_some op a
  have hslot : (registryMachine.run {} (before ++ [op])).byKey[op.key]? = some b := by
    rw [Machine.run_append, Machine.run_cons, Machine.run_nil, registryMachine_slot_self, ha, hb]
  have hhas := (SourceRegistry.has_iff _ op.pair.1 op.pair.2).mpr ⟨a, ha⟩
  have hmono := h.monotone before op after hops op.pair.1 op.pair.2
  have hstrict := h.strict before op after hops op.pair.1 op.pair.2 hhas
  have hfresh := h.boot_fresh hops ha hslot
  simp only [SourceRegistry.get_of_slot ha, SourceRegistry.get_of_slot hslot] at hmono hstrict
  cases op with
  | registerSource o epoch force =>
    obtain ⟨rfl, hsrc, hobs, hboot⟩ := heff
    rw [hsrc, hobs] at hmono hstrict
    rw [hboot] at hstrict hfresh
    exact ⟨hmono.1, hmono.2.1, hmono.2.2, fun hne =>
      ⟨(hstrict hne).1, (hstrict hne).2, hfresh hne⟩⟩
  | validate o => trivial
  | markRestart source worker newBoot epoch =>
    obtain ⟨rfl, hsrc, hobs, rfl⟩ := heff
    rw [hsrc, hobs] at hmono
    exact ⟨hmono.1, (le_add_one_iff _).mp hmono.2.1, (le_add_one_iff _).mp hmono.2.2, hfresh⟩

/-- A run moves forward exactly when each of its calls meets the condition. -/
theorem movesForward_iff (ops : List RegistryOp) : MovesForward ops ↔ ForwardCalls ops :=
  ⟨MovesForward.forwardCalls, ForwardCalls.movesForward⟩

/-- The registration of one source under the given boot, generation and epoch. -/
def hello (boot : WorkerBootId) (generation epoch : UInt64) : RegistryOp :=
  let o : Observation :=
    { source := ⟨⟨0, 1⟩⟩, worker := ⟨⟨0, 10⟩⟩, boot := boot, srcGen := generation,
      obsGen := generation }
  .registerSource o epoch false

/-- A boot, another boot with lower generations and epoch, the first boot again. -/
def staleHellos : List RegistryOp :=
  [hello ⟨⟨0, 17⟩⟩ 2 2, hello ⟨⟨0, 34⟩⟩ 1 1, hello ⟨⟨0, 17⟩⟩ 2 2]

/-- The second registration lowers the epoch and both generations, and the third
brings the superseded boot back. -/
theorem not_movesForward_staleHellos : ¬ MovesForward staleHellos := fun h =>
  absurd (h.monotone [hello ⟨⟨0, 17⟩⟩ 2 2] (hello ⟨⟨0, 34⟩⟩ 1 1) [hello ⟨⟨0, 17⟩⟩ 2 2] rfl
    ⟨⟨0, 1⟩⟩ ⟨⟨0, 10⟩⟩) (by decide)

end ServingObservatory
