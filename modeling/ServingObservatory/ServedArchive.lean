import ServingObservatory.ArchiveRecovery
import ServingObservatory.ArchiveSchedule
import ServingObservatory.ClientProgress

/-!
# The archive of a stopped server

`serve` stops the server and then saves an archive. The parts of the archive are read one after
the other, but nothing moves any more between the reads. All evidence came over the wire, so that
the archive holds nothing that its reader rejects.
-/
namespace ServingObservatory
open Std Relation Interleaving

/-- A record that has seen no observation time holds none. -/
def SourceAuthority.Timed (a : SourceAuthority) : Prop := a.hasLastTs = false → a.lastObsTs = 0

theorem SourceAuthority.Timed.advance {a : SourceAuthority} (h : a.Timed) (o : Observation) :
    (a.advance o).Timed := by
  simp only [Timed, SourceAuthority.advance]
  split_ifs
  · exact False.elim
  · exact h

theorem RegistryOp.timed_onSlot (op : RegistryOp) {slot : Option SourceAuthority}
    (h : ∀ a ∈ slot, a.Timed) {b : SourceAuthority} (hb : op.onSlot slot = some b) : b.Timed := by
  cases op with
  | registerSource o epoch force =>
    cases slot with
    | none =>
      obtain rfl := Option.some.inj hb
      exact fun _ => rfl
    | some a =>
      simp only [onSlot] at hb
      split_ifs at hb
      · obtain rfl := Option.some.inj hb
        exact h a rfl
      · obtain rfl := Option.some.inj hb
        exact fun _ => rfl
  | validate o =>
    cases slot with
    | none => cases hb
    | some a =>
      simp only [onSlot] at hb
      split_ifs at hb
      · obtain rfl := Option.some.inj hb
        exact SourceAuthority.Timed.advance (h a rfl) o
      · obtain rfl := Option.some.inj hb
        exact h a rfl
  | markRestart source worker newBoot epoch =>
    obtain rfl := Option.some.inj hb
    cases slot <;> exact fun _ => rfl

/-- The evidence can be encoded, and the records say nothing that is not written. -/
structure Coordinator.Archivable (c : Coordinator) : Prop where
  accepted : ∀ o ∈ c.allAccepted, o.Encodable
  stale : ∀ p ∈ c.stale, p.1.Encodable
  registry : ∀ (k : UInt64) (a : SourceAuthority), c.registry.byKey[k]? = some a → a.Timed

/-- The observation of a call, if it carries one, can be encoded. -/
def ClientCall.Encodable (x : ClientCall) : Prop := ∀ o ∈ x.observation?, o.Encodable

theorem Coordinator.Archivable.next {c : Coordinator} (h : c.Archivable) {x : ClientCall}
    (hx : x.Encodable) : (clientMachine.next c x).Archivable := by
  cases x with
  | hello hello =>
    refine ⟨h.accepted, h.stale, fun k a ha => ?_⟩
    change (registryMachine.next c.registry hello.registration).byKey[k]? = some a at ha
    rw [registryMachine_slot] at ha
    split_ifs at ha
    · exact hello.registration.timed_onSlot (h.registry k) ha
    · exact h.registry k a ha
  | ingest o =>
    have ho : o.Encodable := hx o rfl
    have hstale : ∀ reason, ∀ p ∈ c.stale ++ [(o, reason)], p.1.Encodable := by
      intro reason p hp
      rcases List.mem_append.mp hp with hold | hnew
      · exact h.stale p hold
      · exact List.mem_singleton.mp hnew ▸ ho
    change (c.ingest o).2.Archivable
    rcases c.ingest_cases o with ⟨-, -, hnext⟩ | ⟨-, -, -, hnext⟩ | ⟨-, -, a, hslot, -, hnext⟩
    · rw [hnext]
      exact ⟨h.accepted, hstale _, h.registry⟩
    · rw [hnext]
      exact ⟨h.accepted, hstale _, h.registry⟩
    · rw [hnext]
      refine ⟨fun o' ho' => ?_, h.stale, fun k b hb => ?_⟩
      · obtain ⟨id, hid⟩ := mem_allAccepted.mp ho'
        rw [getElem?_accepted_admitted] at hid
        split_ifs at hid
        · exact Option.some.inj hid ▸ ho
        · exact h.accepted o' (mem_allAccepted.mpr ⟨id, hid⟩)
      · rw [getElem?_byKey_admitted] at hb
        split_ifs at hb
        · exact Option.some.inj hb ▸ (h.registry _ a hslot).advance o
        · exact h.registry k b hb

theorem Coordinator.Archivable.run {c : Coordinator} (h : c.Archivable) {calls : List ClientCall}
    (hcalls : ∀ x ∈ calls, x.Encodable) : (clientMachine.run c calls).Archivable := by
  induction calls generalizing c with
  | nil => exact h
  | cons x calls ih =>
    obtain ⟨hx, hcalls⟩ := List.forall_mem_cons.mp hcalls
    exact ih (h.next hx) hcalls

theorem Frame.readObservationPayload_of_request {f : Frame} {o : Observation}
    (h : f.request = .ingest o) : readObservationPayload f.payload = .ok o := by
  unfold Frame.request at h
  cases htype : f.type with
  | obs =>
    simp only [htype] at h
    cases hread : readObservationPayload f.payload with
    | ok o' =>
      rw [hread] at h
      rw [ClientRequest.ingest.inj h]
    | error e =>
      rw [hread] at h
      cases h
  | hello =>
    simp only [htype] at h
    cases hread : decodeHello f.payload with
    | ok hello =>
      rw [hread] at h
      cases h
    | error e =>
      rw [hread] at h
      cases h
  | status | ping | bye | helloAck | obsAck | pong =>
    simp only [htype] at h
    cases h

theorem encodable_of_readObservationPayload {b : Bytes} {o : Observation}
    (h : readObservationPayload b = .ok o) : o.Encodable := by
  obtain ⟨w, hw, -, rfl⟩ := WireObservation.exists_of_readObservationPayload h
  exact WireObservation.encodable_observation hw

/-- What the payload reader returns can be encoded. -/
theorem encodable_callOf {full : Bytes} {x : ClientCall} (h : callOf full = some x) :
    x.Encodable := by
  intro o ho
  cases x with
  | hello hello => cases ho
  | ingest o' =>
    obtain rfl := Option.some.inj ho
    unfold callOf at h
    split at h
    · rename_i f _
      refine encodable_of_readObservationPayload (f.readObservationPayload_of_request ?_)
      cases hrequest : f.request with
      | ingest o =>
        rw [hrequest] at h
        rw [ClientCall.ingest.inj (Option.some.inj h)]
      | register | status | ping | bye | nothing =>
        rw [hrequest] at h
        cases h
    · cases h

/-- The coordinator that `serve` creates. -/
theorem archivable_setEpoch (epoch : UInt64) :
    (Coordinator.setEpoch {} epoch).Archivable where
  accepted := by simp [Coordinator.setEpoch, Coordinator.allAccepted]
  stale := by simp [Coordinator.setEpoch]
  registry := by simp [Coordinator.setEpoch]

section Saving
variable {ρ : Type}

/-- `save_archive` with a state of its own for each read of `build_archive`. -/
def saveArchiveFrom (R : Replayer ρ) (reads : ArchivePart → Coordinator) :
    Except Str (ArchiveContents ρ × Bytes) := do
  let accepted := (reads .accepted).allAccepted
  let rp ← R.replay accepted
  let a := ArchiveContents.ofParts R (reads .epoch).epoch (reads .registry).registrySnapshot
    (reads .stale).stale accepted rp
  let file ← archiveFile a
  return (a, file)

theorem saveArchiveFrom_const (R : Replayer ρ) (c : Coordinator) :
    saveArchiveFrom R (fun _ => c) = saveArchive R c := by
  simp [saveArchiveFrom, saveArchive, buildArchive, ArchiveContents.ofParts]

end Saving

theorem clientMachine_run_eq (c : Coordinator) (calls : List ClientCall) :
    clientMachine.run c calls = coordinatorMachine.run c (calls.map ClientCall.op) := by
  simp only [Machine.run, List.foldl_map]
  rfl

/-- Every observation that a server was given was read from a payload. -/
theorem AllServed.encodable_calls {c₀ : Coordinator} {c : SharedCoordinator}
    {threads : List ClientThread} (h : AllServed c₀ c threads) : ∀ x ∈ c.calls, x.2.Encodable := by
  intro x hx
  have hthread := List.getElem?_eq_getElem (h.known x hx)
  have hmade := (h.served x.1 _ hthread).made
  have hmem : x.2 ∈ ofClient x.1 c.calls := mem_ofClient.mpr hx
  rw [hmade, List.mem_filterMap] at hmem
  obtain ⟨full, -, hcall⟩ := hmem
  exact encodable_callOf hcall

theorem AllServed.archivable {epoch : UInt64} {c : SharedCoordinator}
    {threads : List ClientThread} (h : AllServed (Coordinator.setEpoch {} epoch) c threads) :
    c.coordinator.Archivable := by
  rw [h.coordinator, coordinatorAt, List.take_length]
  refine (archivable_setEpoch epoch).run fun x hx => ?_
  obtain ⟨y, hy, rfl⟩ := List.mem_map.mp hx
  exact h.encodable_calls y hy

section Recovery
variable [Platform] {c : Coordinator} {a a' : ArchiveContents ReplayResult} {file : Bytes}

/-- An archive of evidence that can be encoded is loaded as it was saved, or not at all. -/
theorem loadArchive_saved_iff (h : c.Archivable) (hid : (c.allAccepted.map Observation.id).Nodup)
    (hsave : saveArchive replayer c = .ok (a, file)) :
    loadArchive replayer file true = .ok a' ↔
      a' = a ∧ a.bodySize < 2 ^ 32 ∧ a.registry.length ≤ 1000000 := by
  obtain ⟨hbuild, hw, rfl⟩ := (saveArchive_eq_ok_iff replayer c a file).mp hsave
  obtain ⟨rp, hrp, rfl⟩ := (buildArchive_eq_ok_iff replayer c a).mp hbuild
  have hregistry : ∀ s ∈ c.registrySnapshot, s.hasLastTs = false → s.lastObsTs = 0 := by
    intro s hs
    obtain ⟨⟨k, b⟩, hk, rfl⟩ := List.mem_map.mp hs
    exact h.registry k b (ExtTreeMap.mem_toList_iff_getElem?_eq_some.mp hk)
  set a := ArchiveContents.ofParts replayer c.epoch c.registrySnapshot c.stale c.allAccepted rp
    with ha
  have hload : a.bodySize < 2 ^ 32 → a.registry.length ≤ 1000000 →
      loadArchive replayer (fileOf (WireArchive.ofContents a).spell) true = .ok a := by
    intro hsize hcount
    have hvalid := (WireArchive.valid_ofContents_iff hw hid hsize).mpr
      ⟨hcount, fun o ho => (h.accepted o ho).readable, fun p hp => (h.stale p hp).readable⟩
    have hcontents := contents_ofContents (a := a) (fun o ho => (h.accepted o ho).absentAtDefault)
      (fun p hp => (h.stale p hp).absentAtDefault) hregistry
    have haccepted : (WireArchive.ofContents a).sections.accepted = c.allAccepted :=
      congrArg ArchiveContents.accepted hcontents
    have hdigests : replayer.digests rp = ((WireArchive.ofContents a).sections.contents :
        ArchiveContents ReplayResult).digests := (digests_contents_ofContents a).symm
    refine (loadArchive_eq_ok_iff replayer _ a).mpr ⟨_, hvalid, a.length_block,
      (WireArchive.length_spell a).trans_lt hsize, rfl, rp, haccepted ▸ hrp, hdigests, ?_⟩
    rw [ArchiveContents.verified_eq hdigests, hcontents]
    rfl
  constructor
  · intro hloaded
    obtain ⟨hvalid, hsize⟩ := valid_of_load hw hloaded
    have hcount := ((WireArchive.valid_ofContents_iff hw hid hsize).mp hvalid).1
    rw [hload hsize hcount] at hloaded
    exact ⟨(Except.ok.inj hloaded).symm, hsize, hcount⟩
  · rintro ⟨rfl, hsize, hcount⟩
    exact hload hsize hcount

variable {ι : Type*} [DecidableEq ι] {s : CoordinatorServer ι SharedCoordinator ClientThread}
  {i : ι} {epoch : UInt64}

/-- The archive that `serve` saves after `stop` has returned is of one moment, whatever other
threads still do while it is read. It is loaded, whole and with its replay verified, exactly when
its body and its registry are within the limits of the loader. Every observation whose acceptance
was acknowledged to a client is in it. -/
theorem stopped_archive_recovers (hrun : ServerRun (Coordinator.setEpoch {} epoch) s)
    (hi : s.stop i = .returned true)
    (states : ArchivePart → CoordinatorServer ι SharedCoordinator ClientThread)
    (hlater : ∀ p, ReflTransGen (CoordinatorServer.Step clientHandler) s (states p))
    (hsave : saveArchiveFrom replayer (fun p => (states p).coord.coordinator) = .ok (a, file)) :
    a.SnapshotOf s.coord.coordinator ∧
      (∀ a', loadArchive replayer file true = .ok a' ↔
        a' = a ∧ a.bodySize < 2 ^ 32 ∧ a.registry.length ≤ 1000000) ∧
      ∀ o position, AckedAccepted s o position → o ∈ a.accepted := by
  obtain ⟨-, -, -, hquiet⟩ := CoordinatorServer.quiet_of_returned hrun hi
  have hone : (fun p => (states p).coord.coordinator) = fun _ => s.coord.coordinator :=
    funext fun p => by rw [(hquiet (states p) (hlater p)).1]
  rw [hone, saveArchiveFrom_const] at hsave
  obtain ⟨hserved, -⟩ := allServed_run hrun
  have hid : (s.coord.coordinator.allAccepted.map Observation.id).Nodup := by
    have hacc := accounted_run (.setEpoch epoch :: (s.coord.calls.map Prod.snd).map ClientCall.op)
    rw [hserved.coordinator, coordinatorAt, List.take_length, clientMachine_run_eq]
    exact hacc.nodup_allAccepted
  obtain ⟨hbuild, -, -⟩ := (saveArchive_eq_ok_iff _ _ a file).mp hsave
  obtain ⟨rp, -, hparts⟩ := (buildArchive_eq_ok_iff _ _ a).mp hbuild
  have haccepted : a.accepted = s.coord.coordinator.allAccepted := by rw [← hparts]; rfl
  refine ⟨?_, fun a' => loadArchive_saved_iff hserved.archivable hid hsave, fun o position hacked => ?_⟩
  · rw [← hparts]
    exact ⟨rfl, rfl, rfl, rfl⟩
  · obtain ⟨n, j, -, hcall, hacc⟩ := hserved.acked hacked
    rw [haccepted, Coordinator.mem_allAccepted, hserved.coordinator]
    exact ⟨o.id, accepted_later (lt_of_getElem? hcall) (accepted_at hcall hacc).2⟩

end Recovery

section Stopped

/-- The server is stopped after its one client has ended. -/
theorem exists_run_stopped {x : SharedCoordinator × ClientThread}
    (hx : ReflTransGen (clientHandler.step 0 false) ({ coordinator := {} }, {}) x)
    (hended : x.2.Ended) : ∃ s : CoordinatorServer Unit SharedCoordinator ClientThread,
      ServerRun {} s ∧ s.stop () = .returned true ∧ s.coord = x.1 ∧ s.threads = [x.2] := by
  have hclient := CoordinatorServer.client_goes_on (s := oneConnection Unit) rfl hx
  have hserved := serverRun_oneConnection.trans hclient
  have hclosed := ((hserved.tail (.exchange () rfl)).tail (.request () rfl)).tail (.close () rfl)
  have hjoined := (hclosed.tail (.test rfl)).tail (.joinAcceptor () rfl rfl)
  have hlocked := hjoined.tail (.lock () rfl rfl)
  have hreturned := (hlocked.tail (.joinClient () 0 0 x.2 rfl rfl rfl hended)).tail
    (.clear () 1 rfl rfl)
  exact ⟨_, hreturned, rfl, rfl, rfl⟩

/-- Evidence without request identities is saved when the body is within its 32 bits. -/
theorem exists_saveArchive [Platform] {c : Coordinator} (h : c.Archivable)
    (hsize : c.archiveSize < 2 ^ 32) (hnull : ∀ o ∈ c.allAccepted, groupKey o = none) :
    ∃ (a : ArchiveContents ReplayResult) (file : Bytes), saveArchive replayer c = .ok (a, file) ∧
      a.bodySize = c.archiveSize ∧ a.registry = c.registrySnapshot := by
  let parts := ArchiveContents.ofParts replayer c.epoch c.registrySnapshot c.stale c.allAccepted
  have hw : ∀ rp, (parts rp).Writable := fun rp =>
    ArchiveContents.writable_of_bodySize h.accepted h.stale hsize
  obtain ⟨rp, hrp⟩ := (exists_replay_iff c.allAccepted).mpr
    (replayable_of_no_request (hw default).accepted hnull)
  exact ⟨parts rp, _, (saveArchive_eq_ok_iff replayer c _ _).mpr
    ⟨(buildArchive_eq_ok_iff replayer c _).mpr ⟨rp, hrp, rfl⟩, hw rp, rfl⟩, rfl, rfl⟩

/-- The client then closes its connection. -/
def closingClient : Option (SharedCoordinator × ClientThread) :=
  (helloObservationActions ++ [.recv .closed, .recv .closed] : List ClientThread.Action).foldlM
    (ClientThread.act 0 false) ({ coordinator := {} }, {})

theorem closingClient_ended : (closingClient.map fun x =>
    decide x.2.Ended && x.2.answers.map ClientAnswer.view == [none, some ({}, some 1, true)] &&
      decide (x.1.coordinator.archiveSize < 1000) &&
      x.1.coordinator.registrySnapshot.length == 1 &&
      x.1.coordinator.allAccepted.all fun o => decide (groupKey o = none)) = some true := by
  decide +kernel

/-- A server that has served one client is stopped and its archive is loaded. -/
theorem stopped_archive_recovers_served :
    ∃ (s : CoordinatorServer Unit SharedCoordinator ClientThread) (o : Observation)
      (a : ArchiveContents ReplayResult) (file : Bytes), s.stop () = .returned true ∧
      AckedAccepted s o (some 1) ∧ loadArchive (@replayer Platform.machine) file true = .ok a ∧
      o ∈ a.accepted := by
  let _ := Platform.machine
  have hcheck := closingClient_ended
  rw [Option.map_eq_some_iff] at hcheck
  obtain ⟨x, hx, hcheck⟩ := hcheck
  simp only [Bool.and_eq_true, decide_eq_true_eq, beq_iff_eq, List.all_eq_true] at hcheck
  obtain ⟨⟨⟨⟨hended, hviews⟩, hsize⟩, hregistry⟩, hnull⟩ := hcheck
  obtain ⟨s, hrun, hreturned, hcoord, hthreads⟩ :=
    exists_run_stopped (ClientThread.run_of_acts hx) hended
  have hacked : ∃ o, AckedAccepted s o (some 1) := by
    obtain ⟨a, ha, hview⟩ : ∃ a ∈ x.2.answers, a.view = some ({}, some 1, true) :=
      List.mem_map.mp (hviews ▸ by simp)
    obtain ⟨o, hrequest, hposition, hack⟩ := ClientAnswer.of_view hview
    exact ⟨o, 0, x.2, by simp [hthreads], a, ha, hrequest, hposition, hack⟩
  obtain ⟨o, hacked⟩ := hacked
  have hrun : ServerRun (Coordinator.setEpoch {} 1) s := hrun
  obtain ⟨hserved, -⟩ := allServed_run hrun
  obtain ⟨a, file, hsave, hbody, hcount⟩ := exists_saveArchive hserved.archivable
    (by rw [hcoord]; omega) (by rw [hcoord]; exact hnull)
  obtain ⟨-, hload, hkept⟩ := stopped_archive_recovers hrun hreturned (fun _ => s)
    (fun _ => .refl) ((saveArchiveFrom_const _ _).trans hsave)
  refine ⟨s, o, a, file, hreturned, hacked, (hload a).mpr ⟨rfl, ?_, ?_⟩, hkept o _ hacked⟩
  · rw [hbody, hcoord]
    omega
  · rw [hcount, hcoord, hregistry]
    decide

end Stopped
end ServingObservatory
