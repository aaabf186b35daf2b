import ServingObservatory.ClientDispatch
import ServingObservatory.ClientLoop

/-!
# A source and its connection

The source sends frames and waits for answers on one connection, call after call. The server
reads them in its loop, dispatches them and writes the answers. Other clients use the same
coordinator meanwhile. The state also records what was sent, what the server has ingested of it
and what `send_observation` has returned.
-/
namespace ServingObservatory

inductive SessionStatus
  | disconnected | connected | registered
  deriving DecidableEq

structure SourceAck where
  ok : Bool := false
  payload : ObsAckPayload := {}
  deriving DecidableEq

/-- A call that waits for a frame. That of an observation knows how many frames were sent before
its own. -/
inductive SourceCall
  | sendHello
  | sendObservation (o : Observation) (position : ℕ)
  | recvAck

/-- What `send_observation` has returned for its observation. -/
structure SourceReturn where
  observation : Observation
  position : ℕ
  result : Except Str SourceAck

/-- An observation that reached `ingest`, and the coordinator that it found. -/
structure Ingestion where
  coordinator : Coordinator
  observation : Observation

def Ingestion.result (i : Ingestion) : IngestResult := (i.coordinator.ingest i.observation).1

def ClientRequest.ingestion (c : Coordinator) : ClientRequest → Option Ingestion
  | .ingest o => some ⟨c, o⟩
  | _ => none

def HelloPayload.frame (h : HelloPayload) : Except Str Bytes := do
  Frame.encode .hello (← encodeHello h)

def Observation.frame (o : Observation) : Except Str Bytes := do
  Frame.encode .obs (← encodeObservationPayload o)

/-- What `send_hello` makes of the frame it has read. -/
def helloAccepted : Except Str (Option Bytes) → Bool
  | .ok (some full) =>
    match Frame.decode full with
    | some (.ok f) =>
      f.type = .helloAck && match decodeObsAck f.payload with
        | .ok ack => ack.accepted
        | .error _ => false
    | _ => false
  | _ => false

/-- What `send_observation` makes of the acknowledgement. -/
def sourceAck : Except Str ObsAckPayload → Except Str SourceAck
  | .ok a => .ok { ok := true, payload := a }
  | .error e => .error (lit "ack recv failed: " ++ e)

/-- Both ends of a connection: the call in progress on the client, the loop of the server with
the bytes on their way to it, and the bytes on their way back. -/
structure SourceConnection where
  session : SessionStatus := .connected
  waiting : Option (SourceCall × FrameReader) := none
  loop : ClientLoop := { unread := [] }
  replies : Bytes := []
  coordinator : Coordinator
  sent : List Bytes := []
  ingested : List (Option Ingestion) := []
  returned : List SourceReturn := []

/-- What happens on a connection: a call of the source, whose sending may fail, a call of `recv`
on one of the ends, or a call of another client. -/
inductive ConnectionEvent
  | sendHello (h : HelloPayload) (failure : Option Str)
  | sendObservation (o : Observation) (failure : Option Str)
  | sendObservationFire (o : Observation) (failure : Option Str)
  | recvAck
  | clientRecv (d : Delivery)
  | serverRecv (d : Delivery) (stop : Bool)
  | elsewhere (op : CoordinatorOp)

namespace SourceConnection

def sendAll (s : SourceConnection) (full : Bytes) : SourceConnection :=
  { s with
    loop := { s.loop with unread := s.loop.unread ++ full }
    sent := s.sent ++ [full] }

/-- `send_observation` returns. -/
def record (s : SourceConnection) (o : Observation) (position : ℕ)
    (result : Except Str SourceAck) : SourceConnection :=
  { s with returned := s.returned ++ [⟨o, position, result⟩] }

/-- The writers of a payload may throw, which ends the call. -/
def sendHello (s : SourceConnection) (h : HelloPayload) (failure : Option Str) :
    SourceConnection :=
  match h.frame, failure with
  | .ok full, none => { s.sendAll full with waiting := some (.sendHello, .header []) }
  | _, _ => s

def sendObservation (s : SourceConnection) (o : Observation) (failure : Option Str) :
    SourceConnection :=
  if s.session ≠ .registered then s.record o s.sent.length (.error (lit "not registered"))
  else
    match o.frame, failure with
    | .ok full, none =>
      { s.sendAll full with
        waiting := some (.sendObservation o s.sent.length, .header []) }
    | .ok _, some e => s.record o s.sent.length (.error (lit "send failed: " ++ e))
    | .error _, _ => s

def sendObservationFire (s : SourceConnection) (o : Observation) (failure : Option Str) :
    SourceConnection :=
  if s.session ≠ .registered then s
  else
    match o.frame, failure with
    | .ok full, none => s.sendAll full
    | _, _ => s

/-- A call goes on with what `recv_frame` has returned. -/
def finish (s : SourceConnection) (result : Except Str (Option Bytes)) :
    SourceCall → SourceConnection
  | .sendHello => if helloAccepted result then { s with session := .registered } else s
  | .sendObservation o position => s.record o position (sourceAck (ackOf result))
  | .recvAck => s

/-- A call of `recv` on the client. -/
def clientRecv (s : SourceConnection) (d : Delivery) : SourceConnection :=
  match s.waiting with
  | none => s
  | some (call, reader) =>
    match deliver s.replies reader.want d with
    | none => s
    | some (r, rest) =>
      match recvFrame reader r with
      | .pending reader => { s with replies := rest, waiting := some (call, reader) }
      | .done result => { s with replies := rest, waiting := none }.finish result call

/-- The server dispatches a frame and writes its answer. An exception ends the server. -/
def handle (s : SourceConnection) (full : Bytes) : SourceConnection :=
  match Frame.decode full with
  | some (.ok f) =>
    let (reply, c) := s.coordinator.dispatch f.request
    let s :=
      { s with coordinator := c, ingested := s.ingested ++ [f.request.ingestion s.coordinator] }
    match reply with
    | .ok reply => { s with replies := s.replies ++ reply.getD [] }
    | .error _ => { s with loop := { s.loop with position := .ended } }
  | _ => s

/-- A call of `recv` on the server, and the dispatch where it completes a frame. -/
def serverRecv (s : SourceConnection) (d : Delivery) (stop : Bool) : SourceConnection :=
  match s.loop.step d stop with
  | none => s
  | some loop =>
    (loop.dispatched.drop s.loop.dispatched.length).foldl handle { s with loop := loop }

/-- The source makes one call at a time. A sending fails, and the client sees the end of the
stream, only once the server has left its loop. -/
def possible (s : SourceConnection) : ConnectionEvent → Bool
  | .sendHello _ failure | .sendObservation _ failure | .sendObservationFire _ failure =>
    s.waiting.isNone && (failure.isNone || s.loop.position = .ended)
  | .recvAck => s.waiting.isNone
  | .clientRecv d => d ≠ .closed || s.loop.position = .ended
  | .serverRecv d _ => d ≠ .closed
  | .elsewhere _ => true

def perform (s : SourceConnection) : ConnectionEvent → SourceConnection
  | .sendHello h failure => s.sendHello h failure
  | .sendObservation o failure => s.sendObservation o failure
  | .sendObservationFire o failure => s.sendObservationFire o failure
  | .recvAck => { s with waiting := some (.recvAck, .header []) }
  | .clientRecv d => s.clientRecv d
  | .serverRecv d stop => s.serverRecv d stop
  | .elsewhere op => { s with coordinator := coordinatorMachine.next s.coordinator op }

end SourceConnection

/-- Events that are not possible do not take place. -/
def connectionMachine : Machine SourceConnection ConnectionEvent Unit where
  step s e := (if s.possible e then s.perform e else s, ())

/-- A frame that was sent for the observation was ingested, and the acknowledgement has the
result. An encodable observation was ingested as it is. -/
def Acknowledged (s : SourceConnection) (o : Observation) (position : ℕ) (ack : SourceAck) :
    Prop :=
  ∃ b full i, encodeObservationPayload o = .ok b ∧ Frame.encode .obs b = .ok full ∧
    s.sent[position]? = some full ∧ s.ingested[position]? = some (some i) ∧
    readObservationPayload b = .ok i.observation ∧ (o.Encodable → i.observation = o) ∧
    ack.payload = i.result.ack

/-- Whatever `send_observation` has returned as an acknowledgement is that of its observation. -/
def AcksMatch (s : SourceConnection) : Prop :=
  ∀ r ∈ s.returned, ∀ ack, r.result = .ok ack → Acknowledged s r.observation r.position ack

/-- The server answers none of the frames. -/
def goUnanswered : List Bytes → Bool
  | [] => true
  | full :: rest =>
    match Frame.decode full with
    | some (.ok f) =>
      match f.request with
      | .bye => true
      | .nothing => goUnanswered rest
      | _ => false
    | _ => true

/-- No answer is on its way, and none will be to the frames that were sent. -/
def SourceConnection.Quiet (s : SourceConnection) : Prop :=
  s.replies = [] ∧
    (s.loop.position ≠ .ended → goUnanswered (s.sent.drop s.ingested.length) = true)

/-- The length of a frame with the payload fits in 32 bits. -/
def FitsFrame : Except Str Bytes → Prop
  | .ok b => b.length + 8 < 2 ^ 32
  | .error _ => True

/-- The connection is quiet where an observation is sent whose answer the call waits for, frames
fit, and the server drops no bytes. -/
def Orderly (s : SourceConnection) : ConnectionEvent → Prop
  | .sendHello h _ => FitsFrame (encodeHello h)
  | .sendObservation o failure => FitsFrame (encodeObservationPayload o) ∧
    (s.session = .registered → failure = none → s.Quiet)
  | .sendObservationFire o _ => FitsFrame (encodeObservationPayload o)
  | .serverRecv d stop => ¬ Drops s.loop d stop
  | .recvAck | .clientRecv _ | .elsewhere _ => True

/-- Every event of the run is orderly where it takes place. -/
def OrderlyRun : SourceConnection → List ConnectionEvent → Prop
  | _, [] => True
  | s, e :: events => Orderly s e ∧ OrderlyRun (connectionMachine.next s e) events

section Decidability

instance : DecidablePred FitsFrame
  | .ok b => inferInstanceAs (Decidable (b.length + 8 < 2 ^ 32))
  | .error _ => .isTrue trivial

instance (s : SourceConnection) : Decidable s.Quiet :=
  inferInstanceAs (Decidable (_ ∧ (_ → _)))

instance (s : SourceConnection) : DecidablePred (Orderly s)
  | .sendHello h _ => inferInstanceAs (Decidable (FitsFrame (encodeHello h)))
  | .sendObservation _ _ => inferInstanceAs (Decidable (FitsFrame _ ∧ (_ → _ → s.Quiet)))
  | .sendObservationFire o _ =>
    inferInstanceAs (Decidable (FitsFrame (encodeObservationPayload o)))
  | .serverRecv d stop => inferInstanceAs (Decidable (¬ Drops s.loop d stop))
  | .recvAck | .clientRecv _ | .elsewhere _ => .isTrue trivial

instance : ∀ s events, Decidable (OrderlyRun s events)
  | _, [] => .isTrue trivial
  | s, e :: events =>
    have := instDecidableOrderlyRun (connectionMachine.next s e) events
    inferInstanceAs (Decidable (Orderly s e ∧ OrderlyRun _ events))

end Decidability
end ServingObservatory
