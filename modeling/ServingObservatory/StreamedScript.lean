import ServingObservatory.ScriptIngest
import ServingObservatory.ServedArchive
import ServingObservatory.ServedOrder
import ServingObservatory.SourceSession

/-!
# A script that is streamed

`source` sends the observations of a script over a connection, and `ingest` gives them to a
coordinator of its own. A server that has read the HELLO and a part of the observations saves the
archive that `ingest` saves for a part of the script. The two build the same observations when the
clock of the source is `mono_ns`, and the server reads the observations that were sent when each of
them can be encoded and read back and fits into a frame.
-/
namespace ServingObservatory
open Relation Interleaving

/-- The frames that `source` sends for the observations: HELLO before them, BYE after them. -/
def sessionFrames (hello : HelloPayload) (obs : List Observation) : Except Str (List Bytes) := do
  let first ← hello.frame
  let frames ← obs.mapM Observation.frame
  let last ← Frame.encode .bye []
  return first :: frames ++ [last]

section Frames
variable {full : Bytes}

/-- An encoded frame within the limit asks for what its payload says. -/
theorem callOf_of_encode {t : MsgType} {b : Bytes} (hencode : Frame.encode t b = .ok full)
    (hsize : full.length ≤ Frame.maxLength + 4) :
    callOf full = ({ type := t, payload := b } : Frame).request.call := by
  refine callOf_eq ((Frame.decode_eq_ok_iff _ _).mpr ⟨rfl, ?_, hencode⟩)
  rw [Frame.encode_eq, Except.ok.injEq] at hencode
  rw [← hencode, Frame.length_spell] at hsize
  change b.length + 8 ≤ Frame.maxLength
  omega

theorem callOf_hello {h : HelloPayload} (hframe : h.frame = .ok full)
    (hsize : full.length ≤ Frame.maxLength + 4) : callOf full = some (.hello h) := by
  obtain ⟨b, hb, hencode⟩ := Decoding.bind_eq_ok.mp hframe
  rw [callOf_of_encode hencode hsize]
  simp only [Frame.request, decodeHello_encodeHello hb, ClientRequest.call]

theorem callOf_observation {o : Observation} (ho : o.Encodable) (hframe : o.frame = .ok full)
    (hsize : full.length ≤ Frame.maxLength + 4) : callOf full = some (.ingest o) := by
  obtain ⟨b, hb, hencode⟩ := Decoding.bind_eq_ok.mp hframe
  obtain ⟨-, rfl⟩ := (encodeObservationPayload_eq_ok_iff o b).mp hb
  have hread := WireObservation.readObservationPayload_spell
    (WireObservation.valid_ofObservation ho)
  rw [WireObservation.observation_ofObservation] at hread
  rw [callOf_of_encode hencode hsize]
  simp only [Frame.request, hread, ClientRequest.call]

theorem filterMap_callOf_observations {obs : List Observation} {frames : List Bytes}
    (h : List.Forall₂ (fun o full => o.frame = .ok full) obs frames)
    (hobs : ∀ o ∈ obs, o.Encodable) (hsize : ∀ full ∈ frames, full.length ≤ Frame.maxLength + 4) :
    frames.filterMap callOf = obs.map ClientCall.ingest := by
  induction h with
  | nil => rfl
  | cons hframe _ ih =>
    obtain ⟨ho, hobs⟩ := List.forall_mem_cons.mp hobs
    obtain ⟨hfull, hsize⟩ := List.forall_mem_cons.mp hsize
    rw [List.filterMap_cons_some (callOf_observation ho hframe hfull), ih hobs hsize, List.map_cons]

/-- The calls that the first frames of a session make. -/
theorem filterMap_callOf_sessionFrames {hello : HelloPayload} {obs : List Observation}
    {frames : List Bytes} (hframes : sessionFrames hello obs = .ok frames)
    (hobs : ∀ o ∈ obs, o.Encodable) (hsize : ∀ full ∈ frames, full.length ≤ Frame.maxLength + 4)
    (n : ℕ) : (frames.take (n + 1)).filterMap callOf =
      .hello hello :: (obs.take n).map ClientCall.ingest := by
  simp only [sessionFrames, Decoding.bind_eq_ok, Decoding.mapM_eq_ok] at hframes
  obtain ⟨first, hfirst, sent, hsent, last, hlast, h⟩ := hframes
  obtain rfl := Except.ok.inj h
  have hbye : ∀ k, ([last].take k).filterMap callOf = [] := by
    have hnone : callOf last = none := by
      rw [callOf_of_encode hlast (hsize last (by simp))]
      rfl
    rintro (_ | k) <;> simp [hnone]
  have hcalls := filterMap_callOf_observations (List.forall₂_take n hsent)
    (fun o ho => hobs o (List.mem_of_mem_take ho))
    (fun full hfull => hsize full (by simp [List.mem_of_mem_take hfull]))
  rw [List.cons_append, List.take_succ_cons, List.filterMap_cons_some (callOf_hello hfirst
    (hsize first (by simp))), List.take_append, List.filterMap_append, hcalls, hbye,
    List.append_nil]

end Frames

theorem clientMachine_run_ingests (c : Coordinator) (obs : List Observation) :
    clientMachine.run c (obs.map ClientCall.ingest) = c.ingestAll obs := by
  rw [Machine.run, List.foldl_map]
  rfl

/-- A part of the observations of a script are those of a part of its items. -/
theorem exists_take_scriptObservations (build : ScriptEntry → UInt64 → Observation × UInt64)
    (items : List ScriptItem) (seq : UInt64) (n : ℕ) : ∃ m, scriptObservations build seq
      (items.take m) = (scriptObservations build seq items).take n := by
  induction items generalizing seq n with
  | nil => exact ⟨0, by simp [scriptObservations]⟩
  | cons i items ih =>
    cases i with
    | sleep ms =>
      obtain ⟨m, hm⟩ := ih seq n
      exact ⟨m + 1, hm⟩
    | obs e =>
      cases n with
      | zero => exact ⟨0, rfl⟩
      | succ n =>
        obtain ⟨m, hm⟩ := ih (build e seq).2 n
        exact ⟨m + 1, by rw [List.take_succ_cons, scriptObservations, hm]; rfl⟩

section Served
variable {ι : Type*} [DecidableEq ι] {c₀ : Coordinator}
  {s : CoordinatorServer ι SharedCoordinator ClientThread}

omit [DecidableEq ι] in
/-- One connection makes all the calls. -/
theorem AllServed.of_one_client (h : AllServed c₀ s.coord s.threads) (hidle : AllAnswered s)
    {j : ℕ} (hothers : ∀ k ≠ j, ∀ full ∈ dispatchedOn s k, callOf full = none) :
    s.coord.coordinator =
      clientMachine.run c₀ ((dispatchedOn s j).filterMap callOf) := by
  have hall : ∀ x ∈ s.coord.calls, x.1 = j := by
    intro x hx
    by_contra hne
    have hmem : x.2 ∈ ofClient x.1 s.coord.calls := mem_ofClient.mpr hx
    rw [h.ofClient_calls hidle, List.mem_filterMap] at hmem
    obtain ⟨full, hfull, hcall⟩ := hmem
    rw [hothers x.1 hne full hfull] at hcall
    cases hcall
  rw [← h.ofClient_calls hidle, ofClient, List.filter_eq_self.mpr (by simpa using hall),
    h.coordinator, coordinatorAt, List.take_length]

end Served

section Archive
variable {ι : Type*} [DecidableEq ι] {ρ : Type}
  {s : CoordinatorServer ι SharedCoordinator ClientThread} {i : ι} {j n : ℕ}
variable (atof : Str → F64) {cfg : SourceConfig} {items : List ScriptItem}

omit [DecidableEq ι] in
/-- The coordinator of a server that has read the first frames of a session. -/
theorem AllServed.of_session {hello : HelloPayload} {obs : List Observation}
    {frames : List Bytes} {c₀ : Coordinator} (h : AllServed c₀ s.coord s.threads)
    (hidle : AllAnswered s) (hframes : sessionFrames hello obs = .ok frames)
    (hobs : ∀ o ∈ obs, o.Encodable) (hsize : ∀ full ∈ frames, full.length ≤ Frame.maxLength + 4)
    (hj : dispatchedOn s j = frames.take (n + 1))
    (hothers : ∀ k ≠ j, ∀ full ∈ dispatchedOn s k, callOf full = none) :
    s.coord.coordinator = (c₀.registerHello hello).2.ingestAll (obs.take n) := by
  rw [h.of_one_client hidle hothers, hj, filterMap_callOf_sessionFrames hframes hobs hsize,
    Machine.run_cons, clientMachine_run_ingests]
  rfl

/-- A server with the epoch of a source whose clock is `mono_ns` has read the HELLO and a part of a
script that the source has streamed, and no other client has made a call, before it is stopped. If
the observations can be encoded and read back and fit into frames, the archive that it saves is the
one that `ingest` saves for a part of the script, and for the whole script when all frames of the
source have been read. -/
theorem streamed_script_archived (R : Replayer ρ) {role : Str} {frames : List Bytes}
    (hclock : cfg.clockDomain = lit "mono_ns")
    (hframes : sessionFrames (cfg.hello role)
      (scriptObservations (applyEntry atof cfg) 0 items) = .ok frames)
    (hobs : ∀ o ∈ scriptObservations (applyEntry atof cfg) 0 items, o.Encodable)
    (hsize : ∀ full ∈ frames, full.length ≤ Frame.maxLength + 4)
    (hrun : ServerRun (Coordinator.setEpoch {} cfg.epoch) s) (hi : s.stop i = .returned true)
    (hj : dispatchedOn s j = frames.take (n + 1))
    (hothers : ∀ k ≠ j, ∀ full ∈ dispatchedOn s k, callOf full = none)
    (states : ArchivePart → CoordinatorServer ι SharedCoordinator ClientThread)
    (hlater : ∀ p, ReflTransGen (CoordinatorServer.Step clientHandler) s (states p)) :
    ∃ m, saveArchiveFrom R (fun p => (states p).coord.coordinator) =
        saveArchive R (cmdIngest atof cfg (items.take m)).coordinator ∧
      (frames.length ≤ n + 1 → m = items.length) := by
  obtain ⟨-, -, hended, hquiet⟩ := CoordinatorServer.quiet_of_returned hrun hi
  have hone : (fun p => (states p).coord.coordinator) = fun _ => s.coord.coordinator :=
    funext fun p => by rw [(hquiet (states p) (hlater p)).1]
  obtain ⟨hserved, -⟩ := allServed_run hrun
  have hcoordinator := hserved.of_session (fun t ht => (hended t ht).2) hframes hobs hsize hj hothers
  have hbuild : applyEntry atof cfg = ingestEntry atof cfg := by
    funext e seq
    rw [applyEntry, ingestEntry, hclock]
  have hingest : ∀ m, (cmdIngest atof cfg (items.take m)).coordinator =
      ((Coordinator.setEpoch {} cfg.epoch).registerHello (cfg.hello role)).2.ingestAll
        (scriptObservations (applyEntry atof cfg) 0 (items.take m)) := fun m =>
    hbuild ▸ (foldl_ingestItem atof cfg (items.take m) _).1
  rw [hone, saveArchiveFrom_const, hcoordinator]
  by_cases hall : frames.length ≤ n + 1
  · refine ⟨items.length, ?_, fun _ => rfl⟩
    have hlen : (scriptObservations (applyEntry atof cfg) 0 items).length ≤ n := by
      simp only [sessionFrames, Decoding.bind_eq_ok, Decoding.mapM_eq_ok] at hframes
      obtain ⟨first, -, sent, hsent, last, -, h⟩ := hframes
      obtain rfl := Except.ok.inj h
      have := hsent.length_eq
      simp only [List.cons_append, List.length_cons, List.length_append, List.length_nil] at hall
      omega
    rw [hingest, List.take_length, List.take_of_length_le hlen]
  · obtain ⟨m, hm⟩ := exists_take_scriptObservations (applyEntry atof cfg) items 0 n
    exact ⟨m, by rw [hingest, hm], fun h => absurd h hall⟩

end Archive

section Stopped

/-- A script of one request, and what its source sends. -/
def oneRequest : List ScriptItem := [.obs { type := .request }]

def oneRequestFrames : Except Str (List Bytes) :=
  sessionFrames (({} : SourceConfig).hello (lit "worker"))
    (scriptObservations (applyEntry (fun _ => ⟨0⟩) {}) 0 oneRequest)

/-- The frames are read one after the other, the last one is BYE. -/
def oneRequestServed : Option (SharedCoordinator × ClientThread) :=
  let bytes := (oneRequestFrames.toOption.getD []).flatten
  ([.arrive bytes, .recv (.data 4), .recv (.data 105), .advance, .advance, .send 22,
    .recv (.data 4), .recv (.data 123), .advance, .send 22, .recv (.data 4), .recv (.data 8),
    .advance] : List ClientThread.Action).foldlM (ClientThread.act 0 false)
    ({ coordinator := {} }, {})

theorem oneRequestServed_ended : (oneRequestServed.map fun x =>
    decide x.2.Ended && x.1.coordinator.acceptedCount == 1 && match oneRequestFrames with
      | .ok frames => x.2.loop.dispatched == frames && frames.length == 3 &&
          frames.all fun full => decide (full.length ≤ Frame.maxLength + 4)
      | .error _ => false) = some true := by
  decide +kernel

theorem Observation.Encodable.withId {o : Observation} (h : o.Encodable) (i : ObservationId) :
    { o with id := i }.Encodable :=
  ⟨h.obsTs, h.recvTs, h.health, h.confidence, h.clockDomain, h.count, h.fields⟩

theorem encodable_oneRequest : ∀ o ∈ scriptObservations (applyEntry (fun _ => ⟨0⟩) {}) 0 oneRequest,
    o.Encodable := by
  intro o ho
  obtain rfl := List.mem_singleton.mp ho
  have hheader : (entryHeader {} (lit "mono_ns") { type := .request } 0).Encodable := by
    rw [entryHeader, if_neg (by decide)]
    exact ⟨fun _ => rfl, fun _ => rfl, fun _ => rfl, fun _ => rfl, by decide, by decide, by simp⟩
  exact hheader.withId _

/-- The whole of a script is streamed. -/
theorem streamed_script_archived_one : ∃ (s : CoordinatorServer Unit SharedCoordinator ClientThread)
    (frames : List Bytes), oneRequestFrames = .ok frames ∧ s.stop () = .returned true ∧
      dispatchedOn s 0 = frames ∧ s.coord.coordinator.acceptedCount = 1 ∧
      saveArchive (@replayer Platform.machine) s.coord.coordinator =
        saveArchive (@replayer Platform.machine)
          (cmdIngest (fun _ => ⟨0⟩) {} oneRequest).coordinator := by
  have hcheck := oneRequestServed_ended
  rw [Option.map_eq_some_iff] at hcheck
  obtain ⟨x, hx, hcheck⟩ := hcheck
  cases hframes : oneRequestFrames with
  | error e => simp [hframes] at hcheck
  | ok frames =>
    simp only [hframes, Bool.and_eq_true, decide_eq_true_eq, beq_iff_eq, List.all_eq_true] at hcheck
    obtain ⟨⟨hended, hcount⟩, ⟨hdispatched, hlen⟩, hsize⟩ := hcheck
    obtain ⟨s, hrun, hreturned, hcoord, hthreads⟩ :=
      exists_run_stopped (ClientThread.run_of_acts hx) hended
    have hj : dispatchedOn s 0 = frames := by
      rw [dispatchedOn, hthreads]
      exact hdispatched
    have htake : frames.take (2 + 1) = frames := List.take_of_length_le hlen.le
    have hothers : ∀ k ≠ 0, ∀ full ∈ dispatchedOn s k, callOf full = none := by
      intro k hk full hfull
      obtain ⟨k, rfl⟩ := Nat.exists_eq_succ_of_ne_zero hk
      simp [dispatchedOn, hthreads] at hfull
    obtain ⟨m, hsame, hm⟩ := streamed_script_archived (fun _ => ⟨0⟩) (@replayer Platform.machine)
      rfl hframes encodable_oneRequest hsize hrun hreturned (hj.trans htake.symm) hothers
      (fun _ => s) (fun _ => .refl)
    rw [hm hlen.le, List.take_length, saveArchiveFrom_const] at hsame
    exact ⟨s, frames, rfl, hreturned, hj, hcoord ▸ hcount, hsame⟩

end Stopped
end ServingObservatory
