import ServingObservatory.ArchiveFile
import ServingObservatory.LiveIndex
import ServingObservatory.SplitReads

/-!
# Archives built while the coordinator runs

Building an archive takes the lock four times, for the epoch, the registry, the rejected
evidence and the accepted evidence. Other threads may call the coordinator in between.
-/
namespace ServingObservatory
open Std SplitReads

/-- A part of the state that has a read of its own, in the order of the reads. -/
inductive ArchivePart
  | epoch | registry | stale | accepted
  deriving DecidableEq

namespace ArchivePart

instance : Fintype ArchivePart :=
  ⟨{epoch, registry, stale, accepted}, fun p => by cases p <;> simp⟩

instance : Nonempty ArchivePart := ⟨epoch⟩

def Value : ArchivePart → Type
  | epoch => UInt64
  | registry => List SourceAuthority
  | stale => List (Observation × Str)
  | accepted => List Observation

/-- What the read of a part returns. -/
def read : (p : ArchivePart) → Coordinator → p.Value
  | epoch, c => c.epoch
  | registry, c => c.registrySnapshot
  | stale, c => c.stale
  | accepted, c => c.allAccepted

end ArchivePart

/-- The calls of other threads before, between and after the four reads. -/
structure ArchiveSchedule where
  before : List CoordinatorOp := []
  afterEpoch : List CoordinatorOp := []
  afterRegistry : List CoordinatorOp := []
  afterStale : List CoordinatorOp := []
  afterAccepted : List CoordinatorOp := []

namespace ArchiveSchedule
variable (s : ArchiveSchedule)

/-- The calls that have run when a part is read. -/
def callsBefore : ArchivePart → List CoordinatorOp
  | .epoch => s.before
  | .registry => s.before ++ s.afterEpoch
  | .stale => s.before ++ s.afterEpoch ++ s.afterRegistry
  | .accepted => s.before ++ s.afterEpoch ++ s.afterRegistry ++ s.afterStale

/-- All calls in the order of the lock. -/
def calls : List CoordinatorOp :=
  s.before ++ s.afterEpoch ++ s.afterRegistry ++ s.afterStale ++ s.afterAccepted

/-- The state in which a part is read. -/
def stateOf (p : ArchivePart) : Coordinator := coordinatorMachine.run {} (s.callsBefore p)

/-- The state after a number of calls. -/
def stateAt (t : ℕ) : Coordinator := coordinatorMachine.run {} (s.calls.take t)

/-- The number of calls before the read of a part. -/
def time (p : ArchivePart) : ℕ := (s.callsBefore p).length

/-- A call after the read of a part changes it, and that call or a later one changes
another part before the read of that part. -/
def Torn : Prop := SplitReads.Torn ArchivePart.read s.stateAt s.time

end ArchiveSchedule

section Building
variable {ρ : Type} (R : Replayer ρ)

/-- `build_archive` with each read at its own state. -/
def buildArchiveDuring (s : ArchiveSchedule) : Except Str (ArchiveContents ρ) := do
  let epoch := (s.stateOf .epoch).epoch
  let reg := (s.stateOf .registry).registrySnapshot
  let stale := (s.stateOf .stale).stale
  let accepted := (s.stateOf .accepted).allAccepted
  let rp ← R.replay accepted
  return .ofParts R epoch reg stale accepted rp

/-- Without calls between the reads, this is the archive of one state. -/
theorem buildArchiveDuring_eq (before after : List CoordinatorOp) :
    buildArchiveDuring R { before := before, afterAccepted := after } =
      buildArchive R (coordinatorMachine.run {} before) := by
  simp [buildArchiveDuring, ArchiveSchedule.stateOf, ArchiveSchedule.callsBefore, buildArchive,
    ArchiveContents.ofParts]

theorem buildArchiveDuring_eq_ok_iff (s : ArchiveSchedule) (a : ArchiveContents ρ) :
    buildArchiveDuring R s = .ok a ↔
      ∃ rp, R.replay (s.stateOf .accepted).allAccepted = .ok rp ∧
        ArchiveContents.ofParts R (s.stateOf .epoch).epoch
          (s.stateOf .registry).registrySnapshot (s.stateOf .stale).stale
          (s.stateOf .accepted).allAccepted rp = a := by
  refine Decoding.bind_eq_ok.trans (exists_congr fun rp => and_congr_right fun _ => ?_)
  exact ⟨Except.ok.inj, congrArg Except.ok⟩

end Building

/-- The archive stores the four parts of the state. -/
structure ArchiveContents.SnapshotOf {ρ : Type} (a : ArchiveContents ρ) (c : Coordinator) :
    Prop where
  epoch : a.epoch = c.epoch
  registry : a.registry = c.registrySnapshot
  stale : a.stale = c.stale
  accepted : a.accepted = c.allAccepted

namespace ArchiveSchedule
variable (s : ArchiveSchedule)

theorem callsBefore_prefix (p : ArchivePart) : s.callsBefore p <+: s.calls := by
  cases p <;> simp [callsBefore, calls, List.append_assoc]

theorem time_le (p : ArchivePart) : s.time p ≤ s.calls.length := (s.callsBefore_prefix p).length_le

theorem stateAt_time (p : ArchivePart) : s.stateAt (s.time p) = s.stateOf p := by
  rw [stateAt, time, ← List.prefix_iff_eq_take.mp (s.callsBefore_prefix p), stateOf]

theorem stateAt_succ (t : ℕ) : s.stateAt (t + 1) = s.stateAt t ∨
    ∃ op ∈ s.calls, s.stateAt (t + 1) = coordinatorMachine.next (s.stateAt t) op := by
  rcases Nat.lt_or_ge t s.calls.length with hlt | hge
  · refine .inr ⟨s.calls[t], List.getElem_mem hlt, ?_⟩
    rw [stateAt, ← List.take_append_getElem hlt, Machine.run_append]
    rfl
  · refine .inl ?_
    rw [stateAt, stateAt, List.take_of_length_le hge, List.take_of_length_le (by omega)]

/-- The parts are those of one moment when each equals its read there. -/
theorem snapshotOf_iff {ρ : Type} {R : Replayer ρ} {a : ArchiveContents ρ}
    (ha : buildArchiveDuring R s = .ok a) (c : Coordinator) :
    a.SnapshotOf c ↔ ∀ p : ArchivePart, p.read c = p.read (s.stateAt (s.time p)) := by
  obtain ⟨rp, -, rfl⟩ := (buildArchiveDuring_eq_ok_iff R s a).mp ha
  simp only [stateAt_time]
  constructor
  · rintro ⟨hepoch, hregistry, hstale, haccepted⟩ p
    cases p with
    | epoch => exact hepoch.symm
    | registry => exact hregistry.symm
    | stale => exact hstale.symm
    | accepted => exact haccepted.symm
  · intro h
    exact ⟨(h .epoch).symm, (h .registry).symm, (h .stale).symm, (h .accepted).symm⟩

end ArchiveSchedule

/-- A call without a reset adds to the rejected evidence or leaves it. -/
theorem stale_next {c : Coordinator} {op : CoordinatorOp} (h : op ≠ .reset) :
    (coordinatorMachine.next c op).stale = c.stale ∨
      c.stale.length < (coordinatorMachine.next c op).stale.length := by
  cases op with
  | setEpoch e => exact .inl rfl
  | registerHello hello => exact .inl rfl
  | ingest o =>
    rw [coordinatorMachine_next_ingest]
    rcases c.ingest_cases o with ⟨-, -, hnext⟩ | ⟨-, -, -, hnext⟩ | ⟨-, -, a, -, -, hnext⟩
    · right
      simp [hnext, Coordinator.duplicated]
    · right
      simp [hnext, Coordinator.rejected]
    · left
      rw [hnext]
      rfl
  | reset => exact absurd rfl h

/-- A call without a reset adds to the accepted evidence or leaves it. -/
theorem allAccepted_next {c : Coordinator} {op : CoordinatorOp} (h : op ≠ .reset) :
    (coordinatorMachine.next c op).allAccepted = c.allAccepted ∨
      c.allAccepted.length < (coordinatorMachine.next c op).allAccepted.length := by
  cases op with
  | setEpoch e => exact .inl rfl
  | registerHello hello => exact .inl rfl
  | ingest o =>
    rw [coordinatorMachine_next_ingest]
    rcases c.ingest_cases o with ⟨-, -, hnext⟩ | ⟨-, -, -, hnext⟩ | ⟨hnew, -, a, -, -, hnext⟩
    · left
      rw [hnext]
      rfl
    · left
      rw [hnext]
      rfl
    · right
      rw [hnext, (Coordinator.allAccepted_admitted_perm hnew a).length_eq, List.length_cons]
      exact Nat.lt_succ_self _
  | reset => exact absurd rfl h

namespace ArchiveSchedule
variable (s : ArchiveSchedule)

/-- No reset, and neither the epoch nor the registry comes back to an earlier value. -/
structure Forward : Prop where
  no_reset : ∀ op ∈ s.calls, op ≠ .reset
  epoch : NeverReturns Coordinator.epoch s.stateAt
  registry : NeverReturns Coordinator.registrySnapshot s.stateAt

theorem Forward.neverReturns {s : ArchiveSchedule} (h : s.Forward) (p : ArchivePart) :
    NeverReturns p.read s.stateAt := by
  cases p with
  | epoch => exact h.epoch
  | registry => exact h.registry
  | stale =>
    refine neverReturns_of_grows List.length fun t => ?_
    rcases s.stateAt_succ t with hsame | ⟨op, hop, hnext⟩
    · exact .inl (congrArg _ hsame)
    · rw [hnext]
      exact stale_next (h.no_reset op hop)
  | accepted =>
    refine neverReturns_of_grows List.length fun t => ?_
    rcases s.stateAt_succ t with hsame | ⟨op, hop, hnext⟩
    · exact .inl (congrArg _ hsame)
    · rw [hnext]
      exact allAccepted_next (h.no_reset op hop)

end ArchiveSchedule

/-- In every interleaving, the archive is a snapshot of one moment when its reads are not
torn, and only then where no part comes back to an earlier value. -/
theorem archive_of_one_moment {ρ : Type} (R : Replayer ρ) (s : ArchiveSchedule)
    (a : ArchiveContents ρ) (ha : buildArchiveDuring R s = .ok a) :
    (¬ s.Torn → ∃ t ≤ s.calls.length, a.SnapshotOf (s.stateAt t)) ∧
      (s.Forward → (∃ t ≤ s.calls.length, a.SnapshotOf (s.stateAt t)) → ¬ s.Torn) := by
  simp only [s.snapshotOf_iff ha]
  constructor
  · intro htorn
    obtain ⟨t, ⟨j, hj⟩, ht⟩ := exists_moment htorn
    exact ⟨t, hj.trans (s.time_le j), ht⟩
  · rintro hforward ⟨t, -, ht⟩
    exact not_torn_of_moment hforward.neverReturns ht

/-- A HELLO before the reads, a new epoch after the first of them, and an observation after all. -/
theorem archive_of_one_moment_quiet :
    let s : ArchiveSchedule :=
      { before := [.registerHello { epoch := 1 }],
        afterEpoch := [.setEpoch 7],
        afterAccepted := [.ingest { id := ⟨⟨0, 1⟩⟩, epoch := 1, seq := 1 }] }
    ∃ a, buildArchiveDuring (@replayer Platform.machine) s = .ok a ∧
      ∃ t ≤ s.calls.length, a.SnapshotOf (s.stateAt t) := by
  intro s
  let _ := Platform.machine
  have hquiet : ¬ s.Torn := by
    rintro ⟨i, j, p, q, hi, hpq, hj, -, hq⟩
    have hfirst : 1 ≤ s.time i := by cases i <;> decide
    have hlast : s.time j ≤ 2 := by cases j <;> decide
    -- the new epoch is the one call between two reads
    obtain rfl : q = 1 := by omega
    cases j with
    | epoch => exact absurd hj (by decide)
    | registry | stale | accepted => exact hq rfl
  obtain ⟨rp, hrp⟩ := (exists_replay_iff []).mpr (replayable_of_no_request (by simp) (by simp))
  have hempty : (s.stateOf .accepted).accepted = ∅ := rfl
  have haccepted : (s.stateOf .accepted).allAccepted = [] := by
    simp [Coordinator.allAccepted, hempty]
  have hreplay : replayer.replay (s.stateOf .accepted).allAccepted = .ok rp := by
    rw [haccepted]
    exact hrp
  have hbuild := (buildArchiveDuring_eq_ok_iff replayer s _).mpr ⟨rp, hreplay, rfl⟩
  exact ⟨_, hbuild, (archive_of_one_moment replayer s _ hbuild).1 hquiet⟩

/-- An observation that arrives between two reads. -/
def lateObservation : Observation := { id := ⟨⟨0, 1⟩⟩, epoch := 1, seq := 1 }

/-- The observation arrives after the read of the registry and before that of the
accepted evidence: no state has that evidence and a last sequence number of zero. -/
theorem not_one_moment_lateObservation :
    let s : ArchiveSchedule :=
      { before := [.registerHello { epoch := 1 }], afterRegistry := [.ingest lateObservation] }
    ∃ a, buildArchiveDuring (@replayer Platform.machine) s = .ok a ∧
      ¬ ∃ t, a.SnapshotOf (s.stateAt t) := by
  intro s
  let _ := Platform.machine
  have hadm : (SourceAuthority.install (Coordinator.helloObservation { epoch := 1 }) 1 0).Admits
      lateObservation := ⟨by decide, rfl, rfl, rfl, .inl (by decide)⟩
  have haccepted : (s.stateOf .accepted).allAccepted = [lateObservation] :=
    allAccepted_hello_ingest { epoch := 1 } lateObservation rfl hadm
  obtain ⟨rp, hrp⟩ := exists_replay_singleton (o := lateObservation)
    (Observation.fitsEntry_of_no_fields rfl rfl) rfl
  have hreplay : replayer.replay (s.stateOf .accepted).allAccepted = .ok rp := by
    rw [haccepted]
    exact hrp
  refine ⟨_, (buildArchiveDuring_eq_ok_iff replayer s _).mpr ⟨rp, hreplay, rfl⟩, ?_⟩
  rintro ⟨t, -, hregistry, -, hlate⟩
  rcases t with _ | _ | t
  · have hlen := congrArg List.length (haccepted.symm.trans hlate)
    exact absurd hlen (by decide)
  · have hlen := congrArg List.length (haccepted.symm.trans hlate)
    exact absurd hlen (by decide)
  · have hlast : (s.stateOf .registry).registrySnapshot.map SourceAuthority.lastSeq =
        (s.stateAt (t + 2)).registrySnapshot.map SourceAuthority.lastSeq :=
      congrArg (List.map SourceAuthority.lastSeq) hregistry
    have hall : s.stateAt (t + 2) = coordinatorMachine.run {} s.calls := by
      rw [ArchiveSchedule.stateAt, List.take_of_length_le (by simp [s, ArchiveSchedule.calls])]
    rw [hall] at hlast
    exact absurd hlast (by decide)

end ServingObservatory
