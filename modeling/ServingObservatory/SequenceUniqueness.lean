import ServingObservatory.Coordinator

/-!
# When a sequence number is accepted once

The registry remembers the last sequence number of a record and nothing else, so
a number is accepted twice when the record forgets: a HELLO that replaces a record
by a boot and generations already used, or the number zero, which also stands for
no number yet. In every other run the accepted sequence numbers are unique.
-/
namespace ServingObservatory
open Std

/-- The record under which both observations were sent is the same. -/
def SameStream (o o' : Observation) : Prop :=
  o.source = o'.source ∧ o.worker = o'.worker ∧ o.boot = o'.boot ∧ o.srcGen = o'.srcGen ∧
    o.obsGen = o'.obsGen

instance (o o' : Observation) : Decidable (SameStream o o') :=
  inferInstanceAs (Decidable (_ ∧ _))

theorem SameStream.symm {o o' : Observation} (h : SameStream o o') : SameStream o' o :=
  ⟨h.1.symm, h.2.1.symm, h.2.2.1.symm, h.2.2.2.1.symm, h.2.2.2.2.symm⟩

/-- No two accepted observations of one stream carry one sequence number. -/
def SequencesUnique (c : Coordinator) : Prop :=
  ∀ (id id' : ObservationId) (o o' : Observation), c.accepted[id]? = some o →
    c.accepted[id']? = some o' → SameStream o o' → o.seq = o'.seq → id = id'

/-- A HELLO that replaces a record does not name a boot and generations under
which evidence of its key is already accepted, and an observation of sequence
number zero that passes every check is the first of its stream with that number. -/
def RemembersSequences (c : Coordinator) : CoordinatorOp → Prop
  | .registerHello h => ∀ a, c.registry.byKey[keyOf h.source h.worker]? = some a →
      a.confirmedBy (Coordinator.helloObservation h) false = false →
      ∀ (id : ObservationId) (o : Observation), c.accepted[id]? = some o →
        keyOf o.source o.worker = keyOf h.source h.worker →
        ¬ (o.boot = h.boot ∧ o.srcGen = h.srcGen ∧ o.obsGen = h.obsGen)
  | .ingest o => ∀ a, c.registry.byKey[keyOf o.source o.worker]? = some a → a.Admits o →
      c.accepted[o.id]? = none → o.seq = 0 →
      ∀ (id : ObservationId) (o' : Observation), c.accepted[id]? = some o' →
        SameStream o' o → o'.seq ≠ 0
  | _ => True

/-- Accepted evidence that a current record could still be confused with lies at
or below the last sequence number of that record. -/
structure SequencesBounded (c : Coordinator) : Prop where
  unique : SequencesUnique c
  registered : ∀ (id : ObservationId) (o : Observation), c.accepted[id]? = some o →
    ∃ a, c.registry.byKey[keyOf o.source o.worker]? = some a
  bounded : ∀ (id : ObservationId) (o : Observation) (a : SourceAuthority),
    c.accepted[id]? = some o → c.registry.byKey[keyOf o.source o.worker]? = some a →
    o.boot = a.boot → o.srcGen = a.srcGen → o.obsGen = a.obsGen → o.seq ≤ a.lastSeq

theorem sequencesBounded_empty (epoch : UInt64) : SequencesBounded { epoch := epoch } where
  unique := by simp [SequencesUnique]
  registered := by simp
  bounded := by simp

theorem SequencesBounded.of_same {c c' : Coordinator} (h : SequencesBounded c)
    (hacc : c'.accepted = c.accepted) (hreg : c'.registry = c.registry) :
    SequencesBounded c' where
  unique := by simpa only [SequencesUnique, hacc] using h.unique
  registered := by simpa only [hacc, hreg] using h.registered
  bounded := by simpa only [hacc, hreg] using h.bounded

theorem SequencesBounded.registerHello {c : Coordinator} (h : SequencesBounded c)
    {hello : HelloPayload} (hsafe : RemembersSequences c (.registerHello hello)) :
    SequencesBounded (coordinatorMachine.next c (.registerHello hello)) where
  unique := h.unique
  registered := by
    intro id o ho
    exact slot_persists (h.registered id o ho) [hello.registration]
  bounded := by
    intro id o b ho hslot hboot hsrc hobs
    obtain ⟨a, ha⟩ := h.registered id o ho
    simp only [coordinatorMachine_next_registerHello, registryMachine_slot,
      HelloPayload.registration_key, ha] at hslot
    split_ifs at hslot with hkey
    · cases hc : a.confirmedBy (Coordinator.helloObservation hello) false with
      | true =>
        simp only [HelloPayload.registration, RegistryOp.onSlot, hc, if_true,
          Option.some.injEq] at hslot
        subst hslot
        exact h.bounded id o a ho ha hboot hsrc hobs
      | false =>
        simp only [HelloPayload.registration, RegistryOp.onSlot, hc, Bool.false_eq_true, if_false,
          Option.some.injEq] at hslot
        subst hslot
        exact absurd ⟨hboot, hsrc, hobs⟩ (hsafe a (hkey ▸ ha) hc id o ho hkey.symm)
    · obtain rfl := Option.some.inj hslot
      exact h.bounded id o a ho ha hboot hsrc hobs

/-- An observation admitted under a record differs in its sequence number from
every accepted observation of its stream. -/
theorem SequencesBounded.seq_ne {c : Coordinator} (h : SequencesBounded c) {o : Observation}
    {a : SourceAuthority} (hsafe : RemembersSequences c (.ingest o))
    (hslot : c.registry.byKey[keyOf o.source o.worker]? = some a) (hadm : a.Admits o)
    (hnew : c.accepted[o.id]? = none) {id : ObservationId} {o' : Observation}
    (ho' : c.accepted[id]? = some o') (hstream : SameStream o' o) : o'.seq ≠ o.seq := by
  intro hseq
  have ⟨hsource, hworker, hboot, hsrc, hobs⟩ := hstream
  have hle := h.bounded id o' a ho' (by rw [hsource, hworker]; exact hslot)
    (hboot.trans hadm.boot) (hsrc.trans hadm.srcGen) (hobs.trans hadm.obsGen)
  rcases hadm.seq with hlt | ⟨hzero, -⟩
  · exact absurd (UInt64.lt_of_lt_of_le hlt (hseq ▸ hle)) (UInt64.lt_irrefl _)
  · exact hsafe a hslot hadm hnew hzero id o' ho' hstream (hseq.trans hzero)

theorem SequencesBounded.admit {c : Coordinator} (h : SequencesBounded c) {o : Observation}
    {a : SourceAuthority} (hsafe : RemembersSequences c (.ingest o))
    (hslot : c.registry.byKey[keyOf o.source o.worker]? = some a) (hadm : a.Admits o)
    (hnew : c.accepted[o.id]? = none) : SequencesBounded (c.admitted o a) where
  unique := by
    intro id id' o₁ o₂ h₁ h₂ hstream hseq
    rw [Coordinator.getElem?_accepted_admitted] at h₁ h₂
    split_ifs at h₁ h₂ with hid hid' hid'
    · exact hid.symm.trans hid'
    · cases h₁
      exact absurd hseq.symm (h.seq_ne hsafe hslot hadm hnew h₂ hstream.symm)
    · cases h₂
      exact absurd hseq (h.seq_ne hsafe hslot hadm hnew h₁ hstream)
    · exact h.unique id id' o₁ o₂ h₁ h₂ hstream hseq
  registered := by
    intro id o' ho'
    rw [Coordinator.getElem?_byKey_admitted]
    split_ifs with hkey
    · exact ⟨a.advance o, rfl⟩
    · rw [Coordinator.getElem?_accepted_admitted] at ho'
      split_ifs at ho' with hid
      · cases ho'
        exact (hkey rfl).elim
      · exact h.registered id o' ho'
  bounded := by
    intro id o' b ho' hb hboot hsrc hobs
    rw [Coordinator.getElem?_accepted_admitted] at ho'
    rw [Coordinator.getElem?_byKey_admitted] at hb
    split_ifs at ho' hb with hid hkey hkey
    · cases ho'
      cases hb
      rw [hadm.lastSeq_advance]
      exact UInt64.le_refl _
    · cases ho'
      exact absurd rfl hkey
    · cases hb
      have hle := h.bounded id o' a ho' (hkey ▸ hslot) hboot hsrc hobs
      rw [hadm.lastSeq_advance]
      exact UInt64.le_trans hle hadm.lastSeq_le
    · exact h.bounded id o' b ho' hb hboot hsrc hobs

theorem sequencesBounded_step {c : Coordinator} (h : SequencesBounded c) {op : CoordinatorOp}
    (hsafe : RemembersSequences c op) : SequencesBounded (coordinatorMachine.next c op) := by
  cases op with
  | setEpoch e => exact h.of_same rfl rfl
  | registerHello hello => exact h.registerHello hsafe
  | reset => exact sequencesBounded_empty c.epoch
  | ingest o =>
    rw [coordinatorMachine_next_ingest]
    rcases c.ingest_cases o with ⟨-, -, hnext⟩ | ⟨-, -, -, hnext⟩ | ⟨hnew, -, a, hslot, hadm, hnext⟩
    · rw [hnext]
      exact h.of_same rfl rfl
    · rw [hnext]
      exact h.of_same rfl rfl
    · rw [hnext]
      exact h.admit hsafe hslot hadm hnew

/-- In a run whose calls all meet the condition where they are made, the
sequence numbers are unique in every state reached. -/
theorem sequencesUnique_of_remembers (ops : List CoordinatorOp)
    (h : ∀ before op after, ops = before ++ op :: after →
      RemembersSequences (coordinatorMachine.run {} before) op) :
    ∀ before after, ops = before ++ after → SequencesUnique (coordinatorMachine.run {} before) := by
  intro before after hops
  have hprefix : ∀ first op second, before = first ++ op :: second →
      RemembersSequences (coordinatorMachine.run {} first) op := fun first op second hb =>
    h first op (second ++ after) (by simp [hops, hb])
  have hstep : ∀ (_ : List CoordinatorOp) c op, SequencesBounded c → RemembersSequences c op →
      SequencesBounded (coordinatorMachine.next c op) :=
    fun _ _ _ hc hsafe => sequencesBounded_step hc hsafe
  exact (coordinatorMachine.run_invariant_of_guard (I := fun _ c => SequencesBounded c)
    (sequencesBounded_empty 1) hstep before hprefix).unique

/-- A HELLO of one source and its observations of the given sequence numbers,
each with its own identity. -/
def helloThen (seqs : List UInt64) : List CoordinatorOp :=
  let hello : HelloPayload :=
    { source := ⟨⟨0, 1⟩⟩, worker := ⟨⟨0, 10⟩⟩, boot := ⟨⟨0, 17⟩⟩, srcGen := 1, obsGen := 1,
      epoch := 1 }
  let observation (i : ℕ) (seq : UInt64) : Observation :=
    { id := ⟨⟨1, UInt64.ofNat i⟩⟩, source := ⟨⟨0, 1⟩⟩, worker := ⟨⟨0, 10⟩⟩, boot := ⟨⟨0, 17⟩⟩,
      srcGen := 1, obsGen := 1, epoch := 1, seq := seq }
  .registerHello hello :: seqs.mapIdx fun i seq => .ingest (observation i seq)

theorem sequencesUnique_helloThen :
    SequencesUnique (coordinatorMachine.run {} (helloThen [1, 2])) := by
  refine sequencesUnique_of_remembers (helloThen [1, 2]) ?_ _ [] (List.append_nil _).symm
  intro before op after hops
  match before with
  | [] =>
    cases hops
    intro a ha
    simp at ha
  | [_] =>
    cases hops
    intro a _ _ _ hzero
    cases hzero
  | [_, _] =>
    cases hops
    intro a _ _ _ hzero
    cases hzero
  | _ :: _ :: _ :: _ => simp [helloThen] at hops

/-- Two observations of sequence number zero are both accepted under one HELLO. -/
theorem not_sequencesUnique_zero :
    ¬ SequencesUnique (coordinatorMachine.run {} (helloThen [0, 0])) := by
  intro h
  have hboth := h ⟨⟨1, 0⟩⟩ ⟨⟨1, 1⟩⟩ _ _ (Option.some_get (by decide)).symm
    (Option.some_get (by decide)).symm (by decide) (by decide)
  exact absurd hboth (by decide)

end ServingObservatory
