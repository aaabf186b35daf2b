import ServingObservatory.ArrivalOrder
import ServingObservatory.ClientDispatch
import ServingObservatory.CoordinatorServer
import ServingObservatory.FramesOnWire

/-!
# The threads of the clients

The thread of a connection reads a frame, calls the coordinator under its lock, reads the counters
of the coordinator without it, and writes the answer. Between two of these steps other threads may
call the coordinator. The calls are recorded in the order of the lock, with the thread of each.
-/
namespace ServingObservatory
open Interleaving

/-- The call on the coordinator that a request makes. -/
def ClientRequest.call : ClientRequest → Option ClientCall
  | .register h => some (.hello h)
  | .ingest o => some (.ingest o)
  | .status | .ping | .bye | .nothing => none

/-- The coordinator and the calls that were made on it. -/
structure SharedCoordinator where
  coordinator : Coordinator
  calls : List (ℕ × ClientCall) := []

/-- A frame that was answered, with the place of its call, the reply, how many bytes of it
`send_all` has sent, and how many calls had been made when the frame was read and when it was
answered. -/
structure ClientAnswer where
  frame : Frame
  position : Option ℕ
  reply : Bytes
  sent : ℕ
  taken : ℕ
  answered : ℕ

/-- Where a thread is in the loop of `handle_client`: before a frame, at a frame, after the
registration, after some of the four reads of a status, or before `send_all`. -/
inductive ClientWork
  | reading
  | frame (f : Frame)
  | registered (f : Frame) (position : ℕ) (auth : Except Str SourceAuthority)
  | status (f : Frame) (read : ℕ) (sp : StatusPayload)
  | replying (f : Frame) (position : Option ℕ) (reply : Except Str Bytes)

/-- A connection and its thread. How many calls had been made when it last called `recv` is
recorded. -/
structure ClientThread where
  loop : ClientLoop := { unread := [] }
  work : ClientWork := .reading
  taken : ℕ := 0
  answers : List ClientAnswer := []
  crashed : Bool := false

/-- The frame of the answer to a HELLO, which reads a counter of the coordinator. -/
def Coordinator.helloAckFrame (c : Coordinator) (auth : Except Str SourceAuthority) :
    Except Str Bytes := do
  Frame.encode .helloAck (← c.helloAck auth)

def IngestResult.ackFrame (r : IngestResult) : Except Str Bytes := do
  Frame.encode .obsAck (← encodeObsAck r.accepted r.decision r.acceptedTotal r.reason)

def StatusPayload.frame (sp : StatusPayload) : Except Str Bytes := do
  Frame.encode .status (← encodeStatus sp)

/-- The reads of a status, one after the other. -/
def StatusPayload.readNext (sp : StatusPayload) (c : Coordinator) : ℕ → Option StatusPayload
  | 0 => some { sp with onlineSources := UInt32.ofNat c.sourceCount }
  | 1 => some { sp with observationsTotal := c.acceptedTotal }
  | 2 => some { sp with droppedStale := c.staleTotal }
  | 3 => some { sp with epoch := c.epoch }
  | _ => none

namespace SharedCoordinator

/-- A call by a thread under the lock. -/
def call (c : SharedCoordinator) (j : ℕ) (x : ClientCall) : SharedCoordinator :=
  { coordinator := clientMachine.next c.coordinator x, calls := c.calls ++ [(j, x)] }

/-- The next step of the thread with a number in the `switch` over the type of the frame. -/
def advance (c : SharedCoordinator) (j : ℕ) : ClientWork → SharedCoordinator × ClientWork
  | .frame f =>
    match f.request with
    | .register h =>
      (c.call j (.hello h), .registered f c.calls.length (c.coordinator.registerHello h).1)
    | .ingest o =>
      (c.call j (.ingest o),
        .replying f (some c.calls.length) (c.coordinator.ingest o).1.ackFrame)
    | .status => (c, .status f 0 { health := lit "healthy" })
    | .ping => (c, .replying f none (Frame.encode .pong []))
    | .bye | .nothing => (c, .reading)
  | .registered f position auth =>
    (c, .replying f (some position) (c.coordinator.helloAckFrame auth))
  | .status f read sp =>
    match sp.readNext c.coordinator read with
    | some sp => (c, .status f (read + 1) sp)
    | none => (c, .replying f none sp.frame)
  | .reading => (c, .reading)
  | .replying f position reply => (c, .replying f position reply)

end SharedCoordinator

/-- A frame that `recv_frame` has just completed. -/
def ClientLoop.taken (before after : ClientLoop) : ClientWork :=
  match after.dispatched.drop before.dispatched.length with
  | [] => .reading
  | full :: _ =>
    match Frame.decode full with
    | some (.ok f) => .frame f
    | _ => .reading

namespace ClientThread

def Ended (t : ClientThread) : Prop := t.loop.position = .ended ∧ t.work = .reading

/-- Bytes arrive, the thread reads, goes on in the `switch`, or sends its reply, perhaps in part.
The exception of a writer ends it. -/
inductive Step (j : ℕ) (stop : Bool) :
    SharedCoordinator × ClientThread → SharedCoordinator × ClientThread → Prop
  | arrive {c : SharedCoordinator} {t : ClientThread} (bs : Bytes) : ¬ t.Ended →
      Step j stop (c, t) (c, { t with loop := t.loop.append bs })
  | recv {c : SharedCoordinator} {t : ClientThread} (d : Delivery) (loop : ClientLoop) :
      t.work = .reading → t.loop.step d stop = some loop →
      Step j stop (c, t)
        (c, { t with loop := loop, work := t.loop.taken loop, taken := c.calls.length })
  | advance {c : SharedCoordinator} {t : ClientThread} : t.work ≠ .reading →
      (∀ f position reply, t.work ≠ .replying f position reply) →
      Step j stop (c, t) ((c.advance j t.work).1, { t with work := (c.advance j t.work).2 })
  | send {c : SharedCoordinator} {t : ClientThread} (f : Frame) (position : Option ℕ)
      (reply : Bytes) (n : ℕ) : t.work = .replying f position (.ok reply) → n ≤ reply.length →
      Step j stop (c, t)
        (c,
          { t with
            work := .reading
            answers := t.answers ++ [⟨f, position, reply, n, t.taken, c.calls.length⟩] })
  | throw {c : SharedCoordinator} {t : ClientThread} (f : Frame) (position : Option ℕ) (e : Str) :
      t.work = .replying f position (.error e) →
      Step j stop (c, t)
        (c, { t with loop := { t.loop with position := .ended }, work := .reading, crashed := true })

section Actions

/-- What a thread or the network does next. -/
inductive Action
  | arrive (bs : Bytes)
  | recv (d : Delivery)
  | advance
  | send (n : ℕ)
  | throw

instance : ∀ w : ClientWork, Decidable (w = .reading)
  | .reading => .isTrue rfl
  | .frame _ | .registered .. | .status .. | .replying .. => .isFalse nofun

instance (t : ClientThread) : Decidable t.Ended := inferInstanceAs (Decidable (_ ∧ _))

/-- The step that an action makes, if it can be made. -/
def act (j : ℕ) (stop : Bool) (x : SharedCoordinator × ClientThread) :
    Action → Option (SharedCoordinator × ClientThread)
  | .arrive bs =>
    if x.2.Ended then none else some (x.1, { x.2 with loop := x.2.loop.append bs })
  | .recv d =>
    if x.2.work = .reading then
      (x.2.loop.step d stop).map fun loop =>
        (x.1, { x.2 with loop := loop, work := x.2.loop.taken loop, taken := x.1.calls.length })
    else none
  | .advance =>
    match x.2.work with
    | .reading | .replying .. => none
    | w => some ((x.1.advance j w).1, { x.2 with work := (x.1.advance j w).2 })
  | .send n =>
    match x.2.work with
    | .replying f position (.ok reply) =>
      if n ≤ reply.length then
        some (x.1,
          { x.2 with
            work := .reading
            answers := x.2.answers ++ [⟨f, position, reply, n, x.2.taken, x.1.calls.length⟩] })
      else none
    | _ => none
  | .throw =>
    match x.2.work with
    | .replying _ _ (.error _) =>
      some (x.1,
        { x.2 with
          loop := { x.2.loop with position := .ended }, work := .reading, crashed := true })
    | _ => none

theorem step_of_act {j : ℕ} {stop : Bool} {x y : SharedCoordinator × ClientThread} {a : Action}
    (h : act j stop x a = some y) : Step j stop x y := by
  obtain ⟨c, t⟩ := x
  cases a with
  | arrive bs =>
    simp only [act] at h
    split_ifs at h with hended
    obtain rfl := Option.some.inj h
    exact .arrive bs hended
  | recv d =>
    simp only [act] at h
    split_ifs at h with hwork
    obtain ⟨loop, hloop, rfl⟩ := Option.map_eq_some_iff.mp h
    exact .recv d loop hwork hloop
  | advance =>
    simp only [act] at h
    split at h
    · cases h
    · cases h
    · rename_i hreading hreplying
      obtain rfl := Option.some.inj h
      exact .advance hreading hreplying
  | send n =>
    simp only [act] at h
    split at h
    · rename_i f position reply hwork
      split_ifs at h with hn
      obtain rfl := Option.some.inj h
      exact .send f position reply n hwork hn
    · cases h
  | throw =>
    simp only [act] at h
    split at h
    · rename_i f position e hwork
      obtain rfl := Option.some.inj h
      exact .throw f position e hwork
    · cases h

/-- A sequence of actions is a run. -/
theorem run_of_acts {j : ℕ} {stop : Bool} {x y : SharedCoordinator × ClientThread}
    {actions : List Action} (h : actions.foldlM (act j stop) x = some y) :
    Relation.ReflTransGen (Step j stop) x y := by
  induction actions generalizing x with
  | nil =>
    obtain rfl := Option.some.inj h
    exact .refl
  | cons a actions ih =>
    obtain ⟨z, hz, hrest⟩ := Option.bind_eq_some_iff.mp h
    exact (ih hrest).head (step_of_act hz)

end Actions

theorem not_step_of_ended {j : ℕ} {stop : Bool} {c c' : SharedCoordinator} {t t' : ClientThread}
    (h : t.Ended) : ¬ Step j stop (c, t) (c', t') := by
  obtain ⟨hpos, hwork⟩ := h
  intro hstep
  cases hstep with
  | arrive bs hnot => exact hnot ⟨hpos, hwork⟩
  | recv d loop _ hloop => exact ClientLoop.not_ended_of_step hloop hpos
  | advance hne => exact hne hwork
  | send f position reply n hreply | throw f position e hreply =>
    rw [hwork] at hreply
    cases hreply

end ClientThread

/-- The threads that `accept_loop` starts. -/
def clientHandler : ClientHandler SharedCoordinator ClientThread where
  starts t := t = {}
  step := ClientThread.Step
  ended := ClientThread.Ended
  not_step_of_ended := ClientThread.not_step_of_ended

end ServingObservatory
