import ServingObservatory.Archive
import ServingObservatory.Interleaving

/-!
# Arrival order does not change the reconstruction

A client sends HELLOs and observations. Each call reads one registry slot and
whether one identity is known, and writes that slot, that identity and, without
reading it, one list of the request index. Calls on different keys and with
different identities therefore commute up to the order inside those lists.
-/
namespace ServingObservatory
open Std Interleaving

inductive ClientCall
  | hello (h : HelloPayload)
  | ingest (o : Observation)

namespace ClientCall

def op : ClientCall → CoordinatorOp
  | hello h => .registerHello h
  | ingest o => .ingest o

/-- The registry key that a call uses. -/
def key : ClientCall → UInt64
  | hello h => keyOf h.source h.worker
  | ingest o => keyOf o.source o.worker

/-- The observation a call carries. -/
def observation? : ClientCall → Option Observation
  | hello _ => none
  | ingest o => some o

/-- Different registry keys and, for two observations, different identities. -/
def Apart (x y : ClientCall) : Prop :=
  x.key ≠ y.key ∧ ∀ o ∈ x.observation?, ∀ o' ∈ y.observation?, o.id ≠ o'.id

theorem Apart.symm {x y : ClientCall} (h : x.Apart y) : y.Apart x :=
  ⟨h.1.symm, fun o ho o' ho' => (h.2 o' ho' o ho).symm⟩

end ClientCall

/-- The coordinator as its clients use it, one call at a time under the lock. -/
def clientMachine : Machine Coordinator ClientCall CoordinatorOut where
  step c x := coordinatorMachine.step c x.op

/-- An answer without the running totals. -/
def verdict : CoordinatorOut → CoordinatorOut
  | .ingested result => .ingested { result with acceptedTotal := 0, rejectedTotal := 0 }
  | out => out

namespace Coordinator

/-- The observation that a call adds to the accepted evidence. -/
def gain (c : Coordinator) : ClientCall → Option Observation
  | .hello _ => none
  | .ingest o => if (c.ingest o).1.accepted then some o else none

/-- The accepted evidence of one request, without its order. -/
def contents (c : Coordinator) (rid : RequestId) : Option (Multiset Observation) :=
  (c.byRequest[rid]?).map Multiset.ofList

/-- What a call reads is equal in both states. -/
structure ReadsAlike (c d : Coordinator) (x : ClientCall) : Prop where
  slot : c.registry.byKey[x.key]? = d.registry.byKey[x.key]?
  known : ∀ o ∈ x.observation?, c.accepted[o.id]? = d.accepted[o.id]?

theorem gain_mem {c : Coordinator} {x : ClientCall} {o : Observation} (h : c.gain x = some o) :
    o ∈ x.observation? := by
  cases x with
  | hello hp => cases h
  | ingest o' =>
    simp only [gain] at h
    split_ifs at h
    exact h

/-- A call writes no slot but the one of its key. -/
theorem slot_next_of_ne (c : Coordinator) {x : ClientCall} {k : UInt64} (h : x.key ≠ k) :
    (clientMachine.next c x).registry.byKey[k]? = c.registry.byKey[k]? := by
  cases x with
  | hello hp => exact @registryMachine_slot_of_ne c.registry hp.registration k h
  | ingest o =>
    change (c.ingest o).2.registry.byKey[k]? = _
    rcases c.ingest_cases o with ⟨-, -, hnext⟩ | ⟨-, -, -, hnext⟩ | ⟨-, -, a, -, -, hnext⟩
    · rw [hnext]; rfl
    · rw [hnext]; rfl
    · rw [hnext, getElem?_byKey_admitted]
      exact if_neg h

/-- The accepted evidence and the index grow by what the call gains. -/
theorem evidence_next (c : Coordinator) (x : ClientCall) :
    (clientMachine.next c x).accepted =
        (c.gain x).elim c.accepted (fun o => c.accepted.insert o.id o) ∧
      (clientMachine.next c x).byRequest = (c.gain x).elim c.byRequest c.indexed := by
  cases x with
  | hello hp => exact ⟨rfl, rfl⟩
  | ingest o =>
    change (c.ingest o).2.accepted = _ ∧ (c.ingest o).2.byRequest = _
    rcases c.ingest_cases o with ⟨-, hacc, hnext⟩ | ⟨-, hacc, -, hnext⟩ | ⟨-, hacc, a, -, -, hnext⟩
    · rw [hnext, gain, hacc]
      exact ⟨rfl, rfl⟩
    · rw [hnext, gain, hacc]
      exact ⟨rfl, rfl⟩
    · rw [hnext, gain, hacc]
      exact ⟨rfl, rfl⟩

/-- A call acts alike where what it reads is equal. -/
theorem ReadsAlike.acts {c d : Coordinator} {x : ClientCall} (h : c.ReadsAlike d x) :
    (clientMachine.next c x).registry.byKey[x.key]? =
        (clientMachine.next d x).registry.byKey[x.key]? ∧
      c.gain x = d.gain x ∧
      verdict (clientMachine.out c x) = verdict (clientMachine.out d x) := by
  cases x with
  | hello hp =>
    refine ⟨?_, rfl, ?_⟩
    · have hc := registryMachine_slot_self c.registry hp.registration
      have hd := registryMachine_slot_self d.registry hp.registration
      exact hc.trans ((congrArg _ h.slot).trans hd.symm)
    · obtain ⟨a, ha, hc⟩ := c.registry.registerSource_eq (helloObservation hp) hp.epoch false
      obtain ⟨b, hb, hd⟩ := d.registry.registerSource_eq (helloObservation hp) hp.epoch false
      have hab : a = b := Option.some.inj (ha.symm.trans ((congrArg _ h.slot).trans hb))
      change CoordinatorOut.registered _ = CoordinatorOut.registered _
      simp only [registerHello, hc, hd, hab]
  | ingest o =>
    change (c.ingest o).2.registry.byKey[_]? = (d.ingest o).2.registry.byKey[_]? ∧ _ ∧
      verdict (.ingested (c.ingest o).1) = verdict (.ingested (d.ingest o).1)
    have hslot : c.registry.byKey[keyOf o.source o.worker]? =
      d.registry.byKey[keyOf o.source o.worker]? := h.slot
    have hknown := h.known o rfl
    cases hid : d.accepted[o.id]? with
    | some o' =>
      rw [gain, gain, ingest_of_duplicate hid, ingest_of_duplicate (hknown.trans hid)]
      exact ⟨hslot, rfl, rfl⟩
    | none =>
      rcases d.registry.validate_cases o with ⟨a, ha, hadm, -⟩ | ⟨v, hv, hval, -⟩
      · rw [gain, gain, ingest_of_admits hid ha hadm,
          ingest_of_admits (hknown.trans hid) (hslot.trans ha) hadm]
        exact ⟨by simp [admitted, ClientCall.key], rfl, rfl⟩
      · have hvc : (c.registry.validate o).1 = v := by
          rw [SourceRegistry.validate_congr hslot, hval]
        have hval' : c.registry.validate o = (v, c.registry) :=
          Prod.ext hvc (SourceRegistry.validate_rejected (by rwa [hvc]))
        rw [gain, gain, ingest_of_rejected hid hv hval,
          ingest_of_rejected (hknown.trans hid) hv hval']
        exact ⟨hslot, rfl, rfl⟩

/-- A call leaves alone what a call apart from it reads. -/
theorem readsAlike_next (c : Coordinator) {x y : ClientCall} (h : x.Apart y) :
    (clientMachine.next c x).ReadsAlike c y where
  slot := slot_next_of_ne c h.1
  known := by
    intro o' ho'
    rw [(evidence_next c x).1]
    cases hx : c.gain x with
    | none => rfl
    | some o =>
      have hne := h.2 o (gain_mem hx) o' ho'
      simp [ExtTreeMap.getElem?_insert, hne]

/-- What a gained observation does to one list of the index. -/
def grow (gained : Option Observation) (rid : RequestId)
    (l : Option (Multiset Observation)) : Option (Multiset Observation) :=
  match gained with
  | none => l
  | some o => if o.requestId = rid ∧ rid.isNull = false then some (o ::ₘ l.getD 0) else l

theorem grow_comm (g g' : Option Observation) (rid : RequestId)
    (l : Option (Multiset Observation)) :
    grow g rid (grow g' rid l) = grow g' rid (grow g rid l) := by
  cases g with
  | none => rfl
  | some o =>
    cases g' with
    | none => rfl
    | some o' =>
      simp only [grow]
      split_ifs <;> simp [Multiset.cons_swap]

theorem contents_next (c : Coordinator) (x : ClientCall) (rid : RequestId) :
    (clientMachine.next c x).contents rid = grow (c.gain x) rid (c.contents rid) := by
  rw [contents, (evidence_next c x).2]
  cases c.gain x with
  | none => rfl
  | some o =>
    simp only [Option.elim, indexed, grow, contents]
    by_cases hrid : o.requestId = rid
    · subst hrid
      cases hnull : o.requestId.isNull with
      | true => simp
      | false =>
        cases hl : c.byRequest[o.requestId]? with
        | none => simp [ExtTreeMap.getD_eq_getD_getElem?, hl]
        | some l =>
          simp only [ExtTreeMap.getD_eq_getD_getElem?, hl]
          simp [← Multiset.coe_add, add_comm, ← Multiset.singleton_add]
    · split_ifs <;> simp_all [ExtTreeMap.getElem?_insert]

end Coordinator

/-- Equal registry and accepted evidence, and an index equal up to the order
inside each list. -/
structure SameReconstruction (c d : Coordinator) : Prop where
  registry : c.registry = d.registry
  accepted : c.accepted = d.accepted
  contents : ∀ rid, c.contents rid = d.contents rid

theorem sameReconstruction_equivalence : Equivalence SameReconstruction where
  refl _ := ⟨rfl, rfl, fun _ => rfl⟩
  symm h := ⟨h.registry.symm, h.accepted.symm, fun rid => (h.contents rid).symm⟩
  trans h h' := ⟨h.registry.trans h'.registry, h.accepted.trans h'.accepted,
    fun rid => (h.contents rid).trans (h'.contents rid)⟩

theorem SameReconstruction.readsAlike {c d : Coordinator} (h : SameReconstruction c d)
    (x : ClientCall) : c.ReadsAlike d x :=
  ⟨by rw [h.registry], fun o _ => by rw [h.accepted]⟩

theorem SameReconstruction.next {c d : Coordinator} (h : SameReconstruction c d)
    (x : ClientCall) :
    SameReconstruction (clientMachine.next c x) (clientMachine.next d x) := by
  obtain ⟨hslot, hgain, -⟩ := (h.readsAlike x).acts
  refine ⟨SourceRegistry.ext_slot fun k => ?_, ?_, fun rid => ?_⟩
  · by_cases hk : x.key = k
    · exact hk ▸ hslot
    · rw [c.slot_next_of_ne hk, d.slot_next_of_ne hk, h.registry]
  · rw [(c.evidence_next x).1, (d.evidence_next x).1, hgain, h.accepted]
  · rw [c.contents_next, d.contents_next, hgain, h.contents]

/-- Calls that are apart commute. -/
theorem sameReconstruction_swap (c : Coordinator) {x y : ClientCall} (h : x.Apart y) :
    SameReconstruction (clientMachine.next (clientMachine.next c x) y)
      (clientMachine.next (clientMachine.next c y) x) := by
  obtain ⟨hsloty, hgainy, -⟩ := (c.readsAlike_next h).acts
  obtain ⟨hslotx, hgainx, -⟩ := (c.readsAlike_next h.symm).acts
  refine ⟨SourceRegistry.ext_slot fun k => ?_, ExtTreeMap.ext_getElem? fun id => ?_, fun rid => ?_⟩
  · by_cases hx : x.key = k
    · subst hx
      rw [Coordinator.slot_next_of_ne _ h.1.symm, hslotx]
    · by_cases hy : y.key = k
      · subst hy
        rw [hsloty, Coordinator.slot_next_of_ne _ h.1]
      · simp only [Coordinator.slot_next_of_ne _ hx, Coordinator.slot_next_of_ne _ hy]
  · simp only [(Coordinator.evidence_next _ _).1, hgainx, hgainy]
    cases hgx : c.gain x with
    | none => rfl
    | some o =>
      cases hgy : c.gain y with
      | none => rfl
      | some o' =>
        have hne := h.2 o (Coordinator.gain_mem hgx) o' (Coordinator.gain_mem hgy)
        simp only [Option.elim, ExtTreeMap.getElem?_insert]
        by_cases hid : o.id = id
        · subst hid
          simp [hne.symm]
        · simp [hid]
  · simp only [Coordinator.contents_next, hgainx, hgainy]
    exact Coordinator.grow_comm _ _ _ _

theorem clientMachine_independent :
    Independent clientMachine verdict SameReconstruction ClientCall.Apart where
  equiv := sameReconstruction_equivalence
  congr x h := ⟨h.next x, (h.readsAlike x).acts.2.2⟩
  commute c _ _ h := sameReconstruction_swap c h
  unseen c _ _ h := (c.readsAlike_next h).acts.2.2

theorem SameReconstruction.index_perm {c d : Coordinator} (h : SameReconstruction c d)
    (rid : RequestId) : c.byRequest.contains rid = d.byRequest.contains rid ∧
      (c.byRequest.getD rid []).Perm (d.byRequest.getD rid []) := by
  have hrid := h.contents rid
  simp only [Coordinator.contents] at hrid
  simp only [ExtTreeMap.contains_eq_isSome_getElem?, ExtTreeMap.getD_eq_getD_getElem?]
  cases hc : c.byRequest[rid]? <;> cases hd : d.byRequest[rid]? <;>
    simp_all [Multiset.coe_eq_coe]

/-- Any two interleavings of client streams on different registry keys and with
disjoint identities, begun in the same state, give every client the same
verdicts and end with the same registry, the same accepted map, the same index up
to the order inside each list, and the same archive digests. -/
theorem arrival_order_irrelevant {ι : Type*} [DecidableEq ι] (streams : ι → List ClientCall)
    (hapart : ∀ i j, i ≠ j → ∀ x ∈ streams i, ∀ y ∈ streams j, x.Apart y)
    (l l' : List (ι × ClientCall)) (hl : Interleaves streams l) (hl' : Interleaves streams l')
    (c₀ : Coordinator) :
    let c := Interleaving.run clientMachine c₀ l
    let d := Interleaving.run clientMachine c₀ l'
    answers clientMachine verdict c₀ l = answers clientMachine verdict c₀ l' ∧
      c.registry = d.registry ∧ c.accepted = d.accepted ∧
      (∀ rid, c.byRequest.contains rid = d.byRequest.contains rid ∧
        (c.byRequest.getD rid []).Perm (d.byRequest.getD rid [])) ∧
      ∀ (ρ : Type) (R : Replayer ρ), (buildArchive R c).map ArchiveContents.digests =
        (buildArchive R d).map ArchiveContents.digests := by
  obtain ⟨hsame, hans⟩ := clientMachine_independent.interleavings_agree hapart hl hl' c₀
  exact ⟨hans, hsame.registry, hsame.accepted, hsame.index_perm,
    fun ρ R => digests_buildArchive_congr R hsame.accepted⟩

/-- The HELLO and the observation of one of two clients, for a shared request. -/
def twoClients (second : Bool) : List ClientCall :=
  let w : UInt64 := if second then 2 else 1
  let hello : HelloPayload := { source := ⟨⟨0, w⟩⟩, worker := ⟨⟨0, w⟩⟩, epoch := 1 }
  let o : Observation :=
    { id := ⟨⟨0, w⟩⟩, source := ⟨⟨0, w⟩⟩, worker := ⟨⟨0, w⟩⟩, epoch := 1, seq := 1,
      fields := (∅ : ExtTreeMap Str FieldValue).insert FieldKeys.requestId (.id ⟨0, 7⟩) }
  [.hello hello, .ingest o]

/-- One client after the other, and the two in turn. -/
theorem arrival_order_twoClients :
    let h := fun b => (twoClients b).headD (.hello {})
    let o := fun b => (twoClients b).getLastD (.hello {})
    let l := [(false, h false), (false, o false), (true, h true), (true, o true)]
    let l' := [(true, h true), (false, h false), (true, o true), (false, o false)]
    (Interleaving.run clientMachine {} l).acceptedCount = 2 ∧
      (Interleaving.run clientMachine {} l).registry =
        (Interleaving.run clientMachine {} l').registry ∧
      (Interleaving.run clientMachine {} l).accepted =
        (Interleaving.run clientMachine {} l').accepted := by
  intro h o l l'
  have hapart : ∀ i j, i ≠ j → ∀ x ∈ twoClients i, ∀ y ∈ twoClients j, x.Apart y := by
    intro i j hij x hx y hy
    simp only [twoClients, List.mem_cons, List.not_mem_nil, or_false] at hx hy
    cases i <;> cases j <;> try contradiction
    all_goals
      rcases hx with rfl | rfl <;> rcases hy with rfl | rfl <;>
        exact ⟨by decide, by simp [ClientCall.observation?]⟩
  have hl : Interleaves twoClients l := by
    intro i
    cases i <;> rfl
  have hl' : Interleaves twoClients l' := by
    intro i
    cases i <;> rfl
  obtain ⟨-, hreg, hacc, -⟩ := arrival_order_irrelevant twoClients hapart l l' hl hl' {}
  exact ⟨by decide, hreg, hacc⟩

end ServingObservatory
