import ServingObservatory.RestartBoot
import ServingObservatory.ScriptIngest
import ServingObservatory.SourceConnection

/-!
# The sessions of a source

A source connects, registers, sends and disconnects any number of times. Its constructor leaves the
session open to any value, and `connect` sets it. No observation goes out on a connection on which
no HELLO has been accepted. A restart keeps the session but not the authority: until the next HELLO
the coordinator refuses whatever the restarted source sends.
-/
namespace ServingObservatory
open Std

/-- The HELLO of `send_hello`. -/
def SourceConfig.hello (cfg : SourceConfig) (role : Str) : HelloPayload :=
  { ingestHello cfg with clockDomain := cfg.clockDomain, role := role }

/-- What was sent on a connection or read from it. A HELLO that was sent whole comes with what
`recv_frame` has returned for it. -/
inductive WireEvent
  | hello (full : Bytes) (answer : Option (Except Str (Option Bytes)))
  | observation (full : Bytes)
  | bye
  | read (result : Except Str (Option Bytes))

/-- A source with what happened on its connection, if `stream_` holds one, and on earlier ones. -/
structure SourceSession where
  source : Source
  role : Str := lit "worker"
  session : SessionStatus
  registered : Bool := false
  seq : UInt64 := 0
  stream : Option (List WireEvent) := none
  earlier : List (List WireEvent) := []

/-- A call with what the network makes of it: whether the connection comes about, the error of a
sending, and the frame that is read. -/
inductive SourceEvent
  | connect (ok : Bool)
  | sendHello (failure : Option Str) (answer : Except Str (Option Bytes))
  | sendObservation (o : Observation) (failure : Option Str) (answer : Except Str (Option Bytes))
  | sendObservationFire (o : Observation) (failure : Option Str)
  | recvAck (answer : Except Str (Option Bytes))
  | disconnect
  | restartBoot
  | nextSeq

inductive SourceReply
  | done (ok : Bool)
  | acked (result : Except Str SourceAck)
  | ack (result : Except Str ObsAckPayload)
  | boot (b : WorkerBootId)
  | thrown (e : Str)
  | nothing

namespace SourceSession

def log (s : SourceSession) (e : WireEvent) : SourceSession :=
  { s with stream := s.stream.map (· ++ [e]) }

/-- The connections of the source. -/
def wires (s : SourceSession) : List (List WireEvent) := s.earlier ++ s.stream.toList

/-- The error of `send_all`. -/
def sendFailure (s : SourceSession) (failure : Option Str) : Option Str :=
  if s.stream.isSome then failure else some (lit "send on closed socket")

/-- What `recv_frame` returns. -/
def recvFrame (s : SourceSession) (answer : Except Str (Option Bytes)) :
    Except Str (Option Bytes) :=
  if s.stream.isSome then answer else .ok none

def connect (s : SourceSession) (ok : Bool) : SourceSession × SourceReply :=
  if ok then ({ s with session := .connected, stream := some [], earlier := s.wires }, .done true)
  else (s, .done false)

def sendHello (s : SourceSession) (failure : Option Str) (answer : Except Str (Option Bytes)) :
    SourceSession × SourceReply :=
  match (s.source.cfg.hello s.role).frame with
  | .error e => (s, .thrown e)
  | .ok full =>
    match s.sendFailure failure with
    | some _ => (s.log (.hello full none), .done false)
    | none =>
      let fr := s.recvFrame answer
      let s := s.log (.hello full (some fr))
      if helloAccepted fr then ({ s with session := .registered, registered := true }, .done true)
      else (s, .done false)

def sendObservation (s : SourceSession) (o : Observation) (failure : Option Str)
    (answer : Except Str (Option Bytes)) : SourceSession × SourceReply :=
  if s.session ≠ .registered then (s, .acked (.error (lit "not registered")))
  else
    match o.frame with
    | .error e => (s, .thrown e)
    | .ok full =>
      match s.sendFailure failure with
      | some e => (s.log (.observation full), .acked (.error (lit "send failed: " ++ e)))
      | none =>
        let fr := s.recvFrame answer
        ((s.log (.observation full)).log (.read fr), .acked (sourceAck (ackOf fr)))

def sendObservationFire (s : SourceSession) (o : Observation) (failure : Option Str) :
    SourceSession × SourceReply :=
  if s.session ≠ .registered then (s, .done false)
  else
    match o.frame with
    | .error e => (s, .thrown e)
    | .ok full => (s.log (.observation full), .done (s.sendFailure failure).isNone)

def recvAck (s : SourceSession) (answer : Except Str (Option Bytes)) :
    SourceSession × SourceReply :=
  (s.log (.read (s.recvFrame answer)), .ack (ackOf (s.recvFrame answer)))

def disconnect (s : SourceSession) : SourceSession × SourceReply :=
  let s := s.log .bye
  ({ s with session := .disconnected, stream := none, earlier := s.wires }, .nothing)

def restartBoot (s : SourceSession) : SourceSession × SourceReply :=
  ({ s with source := s.source.restartBoot.2 }, .boot s.source.restartBoot.1)

def makeObservation (s : SourceSession) (type : ObsType) : Observation :=
  let cfg := s.source.cfg
  Observation.mint
    { type := type, source := cfg.source, worker := cfg.worker, boot := cfg.boot,
      srcGen := cfg.srcGen, obsGen := cfg.obsGen, epoch := cfg.epoch, seq := s.seq + 1,
      clockDomain := cfg.clockDomain, provenance := .measured }

def makeObservationFor (s : SourceSession) (type : ObsType) (req : RequestId) (obsTs : UInt64) :
    Observation :=
  let o := s.makeObservation type
  let o := if req.isNull then o else o.setField FieldKeys.requestId (.id req.raw)
  if obsTs ≠ 0 then { o with hasObsTs := true, obsTs := obsTs } else o

end SourceSession

def sourceMachine : Machine SourceSession SourceEvent SourceReply where
  step s
    | .connect ok => s.connect ok
    | .sendHello failure answer => s.sendHello failure answer
    | .sendObservation o failure answer => s.sendObservation o failure answer
    | .sendObservationFire o failure => s.sendObservationFire o failure
    | .recvAck answer => s.recvAck answer
    | .disconnect => s.disconnect
    | .restartBoot => s.restartBoot
    | .nextSeq => ({ s with seq := s.seq + 1 }, .nothing)

/-- A HELLO that was sent whole and accepted. -/
def WireEvent.accepts : WireEvent → Bool
  | hello _ (some fr) => helloAccepted fr
  | _ => false

def Accepted (w : List WireEvent) : Prop := ∃ e ∈ w, e.accepts = true

/-- A HELLO was accepted before each observation was sent, or sent in part. -/
def Guarded (w : List WireEvent) : Prop :=
  ∀ before full after, w = before ++ .observation full :: after → Accepted before

/-- What holds of the connections of a source and of what the source knows about them. -/
structure SessionSafe (s : SourceSession) : Prop where
  guarded : ∀ w ∈ s.wires, Guarded w
  session : s.wires ≠ [] →
    (s.session = .registered ↔ ∃ w, s.stream = some w ∧ Accepted w)
  registered : s.registered = true ↔ ∃ w ∈ s.wires, Accepted w

section Sessions

theorem accepted_concat {w : List WireEvent} {e : WireEvent} :
    Accepted (w ++ [e]) ↔ Accepted w ∨ e.accepts = true := by
  simp [Accepted, or_and_right, exists_or]

theorem guarded_nil : Guarded [] := by
  intro before full after h
  simp at h

theorem Guarded.concat {w : List WireEvent} (h : Guarded w) {e : WireEvent}
    (he : ∀ full, e = .observation full → Accepted w) : Guarded (w ++ [e]) := by
  intro before full after heq
  rcases List.eq_nil_or_concat after with rfl | ⟨after, last, rfl⟩
  · obtain ⟨rfl, hlast⟩ := List.append_inj' heq rfl
    exact he full (List.cons.inj hlast).1
  · rw [List.concat_eq_append, ← List.cons_append, ← List.append_assoc] at heq
    exact h before full after (List.append_inj' heq rfl).1

/-- One more event on the connection of the source. -/
theorem forall_wires_log {s : SourceSession} {P : List WireEvent → Prop} {e : WireEvent}
    (h : ∀ w ∈ s.wires, P w) (he : ∀ w, s.stream = some w → P w → P (w ++ [e])) :
    ∀ w ∈ (s.log e).wires, P w := by
  intro w hw
  rcases List.mem_append.mp hw with hold | hnew
  · exact h w (List.mem_append_left _ hold)
  · obtain ⟨w', hw', rfl⟩ := Option.map_eq_some_iff.mp (Option.mem_toList.mp hnew)
    exact he w' hw' (h w' (List.mem_append_right _ (Option.mem_toList.mpr hw')))

theorem exists_wires_log {s : SourceSession} {e : WireEvent} (he : e.accepts = false) :
    (∃ w ∈ (s.log e).wires, Accepted w) ↔ ∃ w ∈ s.wires, Accepted w := by
  have hstream : (∃ w ∈ (s.log e).stream, Accepted w) ↔ ∃ w ∈ s.stream, Accepted w := by
    simp [SourceSession.log, accepted_concat, he]
  simp only [SourceSession.wires, List.mem_append, Option.mem_toList, or_and_right, exists_or]
  exact or_congr_right hstream

theorem wires_log_ne_nil {s : SourceSession} {e : WireEvent} (h : (s.log e).wires ≠ []) :
    s.wires ≠ [] := by
  intro hnil
  obtain ⟨hearlier, hstream⟩ := List.append_eq_nil_iff.mp hnil
  refine h (List.append_eq_nil_iff.mpr ⟨hearlier, ?_⟩)
  rw [Option.toList_eq_nil_iff] at hstream ⊢
  rw [SourceSession.log, hstream]
  rfl

namespace SessionSafe
variable {s : SourceSession}

/-- Whatever is sent or read without an acceptance. -/
theorem log (h : SessionSafe s) {e : WireEvent}
    (he : ∀ full, e = .observation full → s.session = .registered) (hacc : e.accepts = false) :
    SessionSafe (s.log e) where
  guarded := by
    refine forall_wires_log h.guarded fun w hw hguarded => hguarded.concat fun full hfull => ?_
    have hne : s.wires ≠ [] := by
      simp [SourceSession.wires, hw]
    obtain ⟨w', hw', hacc'⟩ := (h.session hne).mp (he full hfull)
    exact Option.some.inj (hw.symm.trans hw') ▸ hacc'
  session := fun hne => by
    refine (h.session (wires_log_ne_nil hne)).trans ?_
    simp [SourceSession.log, accepted_concat, hacc]
  registered := h.registered.trans (exists_wires_log hacc).symm

/-- A HELLO is accepted. -/
theorem accept (h : SessionSafe s) {full : Bytes} {fr : Except Str (Option Bytes)}
    (hopen : s.stream.isSome = true) (hfr : helloAccepted fr = true) :
    SessionSafe { s.log (.hello full (some fr)) with session := .registered, registered := true } := by
  obtain ⟨w, hw⟩ := Option.isSome_iff_exists.mp hopen
  have hstream : (s.log (.hello full (some fr))).stream = some (w ++ [.hello full (some fr)]) := by
    rw [SourceSession.log, hw]
    rfl
  have hacc : Accepted (w ++ [.hello full (some fr)]) := accepted_concat.mpr (.inr hfr)
  refine ⟨forall_wires_log h.guarded fun w' _ hguarded => hguarded.concat nofun,
    fun _ => iff_of_true rfl ⟨_, hstream, hacc⟩, iff_of_true rfl ⟨_, ?_, hacc⟩⟩
  exact List.mem_append_right _ (Option.mem_toList.mpr hstream)

theorem connect (h : SessionSafe s) (ok : Bool) : SessionSafe (s.connect ok).1 := by
  cases ok with
  | false => exact h
  | true =>
    refine ⟨fun w hw => ?_, fun _ => iff_of_false nofun ?_, h.registered.trans ?_⟩
    · rcases List.mem_append.mp hw with hold | hnew
      · exact h.guarded w hold
      · obtain rfl := List.mem_singleton.mp hnew
        exact guarded_nil
    · rintro ⟨w, hw, e, he, -⟩
      obtain rfl := Option.some.inj hw
      cases he
    · simp [SourceSession.connect, SourceSession.wires, or_and_right, exists_or, Accepted]

theorem sendHello (h : SessionSafe s) (failure : Option Str) (answer : Except Str (Option Bytes)) :
    SessionSafe (s.sendHello failure answer).1 := by
  unfold SourceSession.sendHello
  split
  · exact h
  · rename_i full _
    split
    · exact h.log nofun rfl
    · rename_i hsent
      have hopen : s.stream.isSome = true := by
        by_contra hclosed
        rw [SourceSession.sendFailure, if_neg hclosed] at hsent
        cases hsent
      dsimp only
      split_ifs with hfr
      · exact h.accept hopen hfr
      · exact h.log nofun (by simpa [WireEvent.accepts] using hfr)

theorem sendObservation (h : SessionSafe s) (o : Observation) (failure : Option Str)
    (answer : Except Str (Option Bytes)) : SessionSafe (s.sendObservation o failure answer).1 := by
  unfold SourceSession.sendObservation
  split_ifs with hsession
  · exact h
  · have hregistered : s.session = .registered := not_not.mp hsession
    split
    · exact h
    · split
      · exact h.log (fun _ _ => hregistered) rfl
      · exact (h.log (fun _ _ => hregistered) rfl).log nofun rfl

theorem sendObservationFire (h : SessionSafe s) (o : Observation) (failure : Option Str) :
    SessionSafe (s.sendObservationFire o failure).1 := by
  unfold SourceSession.sendObservationFire
  split_ifs with hsession
  · exact h
  · split
    · exact h
    · exact h.log (fun _ _ => not_not.mp hsession) rfl

theorem disconnect (h : SessionSafe s) : SessionSafe s.disconnect.1 := by
  have hlog := h.log (e := .bye) nofun rfl
  refine ⟨fun w hw => hlog.guarded w ?_, fun _ => iff_of_false nofun ?_, ?_⟩
  · simpa [SourceSession.disconnect, SourceSession.wires] using hw
  · rintro ⟨w, hw, -⟩
    cases hw
  · simpa [SourceSession.disconnect, SourceSession.wires] using hlog.registered

theorem withSource (h : SessionSafe s) (source : Source) (seq : UInt64) :
    SessionSafe { s with source := source, seq := seq } :=
  ⟨h.guarded, h.session, h.registered⟩

theorem next (h : SessionSafe s) (e : SourceEvent) : SessionSafe (sourceMachine.next s e) := by
  cases e with
  | connect ok => exact h.connect ok
  | sendHello failure answer => exact h.sendHello failure answer
  | sendObservation o failure answer => exact h.sendObservation o failure answer
  | sendObservationFire o failure => exact h.sendObservationFire o failure
  | recvAck answer => exact h.log nofun rfl
  | disconnect => exact h.disconnect
  | restartBoot => exact h.withSource s.source.restartBoot.2 s.seq
  | nextSeq => exact h.withSource s.source (s.seq + 1)

end SessionSafe

/-- Whatever value the session of a new source happens to have, and whatever it calls and reads
then: on each of its connections a HELLO has been accepted before the first observation. From the
first connection on the session is registered exactly when a HELLO has been accepted on the
connection that is open, while `registered()` says that one has been accepted at all. -/
theorem source_session_safe (source : Source) (role : Str) (session : SessionStatus)
    (events : List SourceEvent) : SessionSafe
      (sourceMachine.run { source := source, role := role, session := session } events) := by
  induction events using List.reverseRecOn with
  | nil =>
    refine ⟨nofun, fun h => absurd rfl h, iff_of_false Bool.false_ne_true ?_⟩
    rintro ⟨w, hw, -⟩
    cases hw
  | append_singleton events e ih =>
    rw [Machine.run_append]
    exact ih.next e

end Sessions

section Restarts

/-- The observation is stamped with the authority of the configuration. -/
def SourceConfig.Owns (cfg : SourceConfig) (o : Observation) : Prop :=
  ∃ seq type, o.envelope =
    ⟨cfg.source, cfg.worker, cfg.boot, cfg.srcGen, cfg.obsGen, cfg.epoch, seq, type⟩

theorem envelope_withObsTs (o : Observation) (ts : UInt64) :
    { o with hasObsTs := true, obsTs := ts }.envelope = o.envelope := rfl

theorem SourceSession.owns_makeObservationFor (s : SourceSession) (type : ObsType)
    (req : RequestId) (obsTs : UInt64) :
    s.source.cfg.Owns (s.makeObservationFor type req obsTs) := by
  refine ⟨s.seq + 1, type, ?_⟩
  simp only [makeObservationFor, apply_ite Observation.envelope, envelope_withObsTs,
    envelope_setField, ite_self, makeObservation, envelope_mint]
  rfl

def SourceEvent.isRestart : SourceEvent → Bool
  | restartBoot => true
  | _ => false

/-- Only a restart changes the configuration. -/
theorem sourceMachine_source (s : SourceSession) (e : SourceEvent) :
    (sourceMachine.next s e).source =
      if e.isRestart then s.source.restartBoot.2 else s.source := by
  cases e with
  | connect ok => cases ok <;> rfl
  | sendHello failure answer =>
    change (s.sendHello failure answer).1.source = s.source
    unfold SourceSession.sendHello
    split
    · rfl
    · split
      · rfl
      · dsimp only
        split_ifs <;> rfl
  | sendObservation o failure answer =>
    change (s.sendObservation o failure answer).1.source = s.source
    unfold SourceSession.sendObservation
    split_ifs
    · rfl
    · split
      · rfl
      · split <;> rfl
  | sendObservationFire o failure =>
    change (s.sendObservationFire o failure).1.source = s.source
    unfold SourceSession.sendObservationFire
    split_ifs
    · rfl
    · split <;> rfl
  | restartBoot => rfl
  | recvAck | disconnect | nextSeq => rfl

theorem Source.cfg_withBoot (s : Source) (nb : WorkerBootId) :
    let cfg := { s.cfg with boot := nb, srcGen := s.cfg.srcGen + 1, obsGen := s.cfg.obsGen + 1,
                            epoch := s.cfg.epoch + 0 }
    cfg.source = s.cfg.source ∧ cfg.worker = s.cfg.worker ∧ cfg.srcGen = s.cfg.srcGen + 1 :=
  ⟨rfl, rfl, rfl⟩

theorem Source.cfg_restartBoot (s : Source) : s.restartBoot.2.cfg.source = s.cfg.source ∧
    s.restartBoot.2.cfg.worker = s.cfg.worker ∧ s.restartBoot.2.cfg.srcGen = s.cfg.srcGen + 1 :=
  s.cfg_withBoot (derivedBoot s.serial)

/-- Each restart raises the source generation by one. -/
theorem cfg_run (s : SourceSession) (events : List SourceEvent) :
    let cfg := (sourceMachine.run s events).source.cfg
    cfg.source = s.source.cfg.source ∧ cfg.worker = s.source.cfg.worker ∧
      cfg.srcGen = s.source.cfg.srcGen + UInt64.ofNat (events.countP SourceEvent.isRestart) := by
  induction events using List.reverseRecOn with
  | nil => exact ⟨rfl, rfl, (UInt64.add_zero _).symm⟩
  | append_singleton events e ih =>
    obtain ⟨hsource, hworker, hgen⟩ := ih
    rw [Machine.run_append, Machine.run_cons, Machine.run_nil, sourceMachine_source,
      List.countP_append, List.countP_singleton]
    split_ifs
    · obtain ⟨hs, hw, hg⟩ := (sourceMachine.run s events).source.cfg_restartBoot
      exact ⟨hs.trans hsource, hw.trans hworker, by
        rw [hg, hgen, UInt64.ofNat_add, ← UInt64.add_assoc]; rfl⟩
    · exact ⟨hsource, hworker, by rw [hgen, Nat.add_zero]⟩

/-- The record under a key has the source generation, if there is one. -/
def GenerationAt (k gen : UInt64) (c : Coordinator) : Prop :=
  ∀ a, c.registry.byKey[k]? = some a → a.srcGen = gen

section Generations
variable {c : Coordinator} {k gen : UInt64}

/-- Without a HELLO under the key no call changes its source generation. -/
theorem GenerationAt.next (h : GenerationAt k gen c) {op : CoordinatorOp}
    (hop : ∀ hello, op = .registerHello hello → keyOf hello.source hello.worker ≠ k) :
    GenerationAt k gen (coordinatorMachine.next c op) := by
  intro a ha
  cases op with
  | setEpoch e => exact h a ha
  | reset => simp [coordinatorMachine, Machine.next, Coordinator.reset] at ha
  | registerHello hello =>
    have hne : hello.registration.key ≠ k := by
      rw [hello.registration_key]
      exact hop hello rfl
    rw [coordinatorMachine_next_registerHello, registryMachine_slot_of_ne _ hne] at ha
    exact h a ha
  | ingest o =>
    rw [coordinatorMachine_next_ingest] at ha
    rcases c.ingest_cases o with ⟨-, -, hnext⟩ | ⟨-, -, -, hnext⟩ | ⟨-, -, b, hslot, -, hnext⟩
    · rw [hnext] at ha
      exact h a ha
    · rw [hnext] at ha
      exact h a ha
    · rw [hnext, Coordinator.getElem?_byKey_admitted] at ha
      split_ifs at ha with hkey
      · rw [hkey] at hslot
        rw [← Option.some.inj ha]
        exact h b hslot
      · exact h a ha

theorem GenerationAt.run (h : GenerationAt k gen c) {ops : List CoordinatorOp}
    (hops : ∀ hello, .registerHello hello ∈ ops → keyOf hello.source hello.worker ≠ k) :
    GenerationAt k gen (coordinatorMachine.run c ops) := by
  induction ops generalizing c with
  | nil => exact h
  | cons op ops ih =>
    refine ih (h.next fun hello hop => hops hello (hop ▸ List.mem_cons_self)) fun hello hmem => ?_
    exact hops hello (List.mem_cons_of_mem op hmem)

theorem add_ofNat_ne {gen : UInt64} {n : ℕ} (hn : 0 < n) (hn' : n < 2 ^ 64) :
    gen + UInt64.ofNat n ≠ gen := by
  intro h
  have hzero : UInt64.ofNat n = 0 := by simpa using h
  have hnat := congrArg UInt64.toNat hzero
  rw [UInt64.toNat_ofNat_of_lt' hn'] at hnat
  exact hn.ne' hnat

/-- The HELLO of another generation installs a record that admits what it announces. -/
theorem GenerationAt.admits_after_hello {cfg : SourceConfig} (role : Str)
    (h : GenerationAt (keyOf cfg.source cfg.worker) gen c) (hgen : gen ≠ cfg.srcGen)
    {o : Observation} (ho : cfg.Owns o) : ∃ a, (c.registerHello (cfg.hello role)).2.registry.byKey[
      keyOf o.source o.worker]? = some a ∧ a.Admits o := by
  obtain ⟨seq, type, henv⟩ := ho
  simp only [Observation.envelope, Envelope.mk.injEq] at henv
  obtain ⟨hsource, hworker, hboot, hsrc, hobs, hepoch, -, -⟩ := henv
  have hkey : keyOf o.source o.worker = (cfg.hello role).registration.key := by
    rw [hsource, hworker, HelloPayload.registration_key]
    rfl
  have hslot : ∃ n, (registryMachine.next c.registry (cfg.hello role).registration).byKey[
      (cfg.hello role).registration.key]? =
        some (.install (Coordinator.helloObservation (cfg.hello role)) cfg.epoch n) := by
    rw [registryMachine_slot_self]
    cases hold : c.registry.byKey[(cfg.hello role).registration.key]? with
    | none => exact ⟨0, rfl⟩
    | some a =>
      refine ⟨a.restartCount + 1, ?_⟩
      have hconfirmed : a.confirmedBy (Coordinator.helloObservation (cfg.hello role)) false =
          false := by
        rw [Bool.eq_false_iff, ne_eq, SourceAuthority.confirmedBy_iff]
        rintro ⟨-, -, hsame, -⟩
        rw [h a (by rw [← hold, HelloPayload.registration_key]; rfl)] at hsame
        exact hgen hsame
      rw [HelloPayload.registration, RegistryOp.onSlot, hconfirmed]
      rfl
  obtain ⟨n, hslot⟩ := hslot
  refine ⟨_, hkey ▸ hslot, ⟨?_, hsrc, hobs, hboot, ?_⟩⟩
  · rw [hepoch]
    exact UInt64.le_refl _
  · by_cases hzero : o.seq = 0
    · exact .inr ⟨hzero, rfl⟩
    · exact .inl (UInt64.pos_iff_ne_zero.mpr hzero)

/-- A source that has restarted, fewer than 2^64 times, since the coordinator has had its
generation sends nothing that the coordinator accepts, whatever else the coordinator is given, until
a HELLO of its key arrives. In the state right after its own next HELLO any observation of it is
accepted whose identity is new. -/
theorem restarted_source_refused_until_hello {s : SourceSession}
    (h : GenerationAt (keyOf s.source.cfg.source s.source.cfg.worker) s.source.cfg.srcGen c)
    {events : List SourceEvent} (hrestarted : 0 < events.countP SourceEvent.isRestart)
    (hfew : events.countP SourceEvent.isRestart < 2 ^ 64) {ops : List CoordinatorOp}
    (hops : ∀ hello, .registerHello hello ∈ ops →
      keyOf hello.source hello.worker ≠ keyOf s.source.cfg.source s.source.cfg.worker)
    {o : Observation} (ho : (sourceMachine.run s events).source.cfg.Owns o) :
    ((coordinatorMachine.run c ops).ingest o).1.accepted = false ∧
      ∀ role, let c' := ((coordinatorMachine.run c ops).registerHello
          ((sourceMachine.run s events).source.cfg.hello role)).2
        c'.accepted[o.id]? = none → (c'.ingest o).1.accepted = true := by
  obtain ⟨hsource, hworker, hgen⟩ := cfg_run s events
  have hne : s.source.cfg.srcGen + _ ≠ _ := add_ofNat_ne hrestarted hfew
  have hrun := h.run hops
  generalize coordinatorMachine.run c ops = c at *
  generalize (sourceMachine.run s events).source.cfg = cfg at *
  rw [← hgen] at hne
  rw [← hsource, ← hworker] at hrun
  constructor
  · rcases c.ingest_cases o with ⟨-, hno, -⟩ | ⟨-, hno, -, -⟩ | ⟨-, -, a, hslot, hadmits, -⟩
    · exact hno
    · exact hno
    · obtain ⟨seq, type, henv⟩ := ho
      simp only [Observation.envelope, Envelope.mk.injEq] at henv
      obtain ⟨hs, hw, -, hsrc, -⟩ := henv
      rw [hs, hw] at hslot
      exact absurd ((hsrc.symm.trans hadmits.srcGen).trans (hrun a hslot)) hne
  · intro role c' hnew
    obtain ⟨a, hslot, hadmits⟩ := hrun.admits_after_hello role hne.symm ho
    rw [Coordinator.ingest_of_admits hnew hslot hadmits]

/-- A source restarts once after its HELLO and goes on sending. -/
theorem restarted_source_refused_until_hello_once :
    let c := (({} : Coordinator).registerHello (({} : SourceConfig).hello (lit "worker"))).2
    let s : SourceSession := { source := { cfg := {} }, session := .registered }
    let s' := sourceMachine.run s [.restartBoot]
    let o := s'.makeObservationFor .request {} 0
    (c.ingest o).1.accepted = false ∧
      ((c.registerHello (s'.source.cfg.hello (lit "worker"))).2.ingest o).1.accepted = true := by
  intro c s s' o
  have hslot : GenerationAt (keyOf s.source.cfg.source s.source.cfg.worker)
      s.source.cfg.srcGen c := by
    intro a ha
    obtain ⟨b, hb, henrolled⟩ := enrolledIn_ingestHello ({} : SourceConfig) 1
    rw [← Option.some.inj (hb.symm.trans ha)]
    exact henrolled.srcGen
  have hempty : ∀ id : ObservationId, ((c.registerHello (s'.source.cfg.hello
      (lit "worker"))).2.accepted)[id]? = none := fun id => ExtTreeMap.getElem?_empty
  have hrestarted : 0 < [SourceEvent.restartBoot].countP SourceEvent.isRestart := by decide
  have hrefused := restarted_source_refused_until_hello hslot hrestarted (by decide)
    (fun hello hmem => absurd (hmem : CoordinatorOp.registerHello hello ∈ []) List.not_mem_nil)
    (s'.owns_makeObservationFor .request {} 0)
  exact ⟨hrefused.1, hrefused.2 (lit "worker") (hempty _)⟩

end Generations

end Restarts
end ServingObservatory
