import ServingObservatory.ClientThreads
import ServingObservatory.SourceConnection

/-!
# Clients that are served at once

However the threads of the server take their turns, the calls on the coordinator form one sequence.
The part of each connection in it are the calls of its frames, in their order. Each answer is what
the coordinator answers at the place of its call, and that place lies between the moment at which
the frame was read and the moment at which it was answered.
-/
namespace ServingObservatory
open Interleaving Relation

/-- The state after the first calls. -/
def coordinatorAt (c₀ : Coordinator) (calls : List (ℕ × ClientCall)) (k : ℕ) : Coordinator :=
  clientMachine.run c₀ ((calls.take k).map Prod.snd)

/-- The places of the calls of one thread. -/
def positionsOf (j : ℕ) (calls : List (ℕ × ClientCall)) : List ℕ :=
  (List.range calls.length).filter fun n => (calls[n]?.map Prod.fst) = some j

/-- The requests that are answered. -/
def ClientRequest.replied : ClientRequest → Bool
  | .register _ | .ingest _ | .status | .ping => true
  | .bye | .nothing => false

/-- The call that a frame asks for. -/
def callOf (full : Bytes) : Option ClientCall :=
  match Frame.decode full with
  | some (.ok f) => f.request.call
  | _ => none

/-- The frame of a request that is answered. -/
def repliedFrame (full : Bytes) : Option Frame :=
  match Frame.decode full with
  | some (.ok f) => if f.request.replied then some f else none
  | _ => none

/-- The fields of a status as they were read, each at a time of its own and one after the other,
from the first place to the last. -/
def StatusRead (c₀ : Coordinator) (calls : List (ℕ × ClientCall)) (first last read : ℕ)
    (sp : StatusPayload) : Prop :=
  ∃ m : ℕ → ℕ, Monotone m ∧ (∀ i, first ≤ m i ∧ m i ≤ last) ∧ sp.health = lit "healthy" ∧
    (0 < read → sp.onlineSources = UInt32.ofNat (coordinatorAt c₀ calls (m 0)).sourceCount) ∧
    (1 < read → sp.observationsTotal = (coordinatorAt c₀ calls (m 1)).acceptedTotal) ∧
    (2 < read → sp.droppedStale = (coordinatorAt c₀ calls (m 2)).staleTotal) ∧
    (3 < read → sp.epoch = (coordinatorAt c₀ calls (m 3)).epoch)

/-- The reply to a frame of a thread is that of its call at its place, or of no call. What it is
made of was called and read from the first place to the last. -/
def Answers (c₀ : Coordinator) (calls : List (ℕ × ClientCall)) (j : ℕ) (f : Frame)
    (position : Option ℕ) (first last : ℕ) (reply : Except Str Bytes) : Prop :=
  match f.request with
  | .register h => ∃ n k, position = some n ∧ calls[n]? = some (j, .hello h) ∧ first ≤ n ∧
      n < k ∧ k ≤ last ∧ reply = (coordinatorAt c₀ calls k).helloAckFrame
        ((coordinatorAt c₀ calls n).registerHello h).1
  | .ingest o => ∃ n, position = some n ∧ calls[n]? = some (j, .ingest o) ∧ first ≤ n ∧
      n < last ∧ reply = ((coordinatorAt c₀ calls n).ingest o).1.ackFrame
  | .status => position = none ∧ ∃ sp, StatusRead c₀ calls first last 4 sp ∧ reply = sp.frame
  | .ping => position = none ∧ reply = Frame.encode .pong []
  | .bye | .nothing => False

namespace ClientWork

/-- The place of the call that is still to be answered. -/
def position : ClientWork → Option ℕ
  | registered _ n _ => some n
  | replying _ position _ => position
  | reading | frame _ | status .. => none

/-- The frame that is still to be answered. -/
def pending : ClientWork → Option Frame
  | reading => none
  | frame f => if f.request.replied then some f else none
  | registered f _ _ | status f _ _ | replying f _ _ => some f

/-- What is known of an answer on its way, when its frame was read at the first place. -/
def Served (c₀ : Coordinator) (calls : List (ℕ × ClientCall)) (j first : ℕ) : ClientWork → Prop
  | reading | frame _ => True
  | registered f n auth => ∃ h, f.request = .register h ∧ calls[n]? = some (j, .hello h) ∧
      first ≤ n ∧ auth = ((coordinatorAt c₀ calls n).registerHello h).1
  | status f read sp => f.request = .status ∧ read ≤ 4 ∧
      StatusRead c₀ calls first calls.length read sp
  | replying f position reply => Answers c₀ calls j f position first calls.length reply

end ClientWork

/-- The frames whose call was made. -/
def ClientThread.handled (t : ClientThread) : List Bytes :=
  match t.work with
  | .frame _ => t.loop.dispatched.dropLast
  | _ => t.loop.dispatched

/-- A frame is answered before the next is read, and after it was read itself. `made` calls have
been made so far. -/
structure ClientThread.Chronological (made : ℕ) (t : ClientThread) : Prop where
  taken : t.taken ≤ made
  answered : ∀ a ∈ t.answers, a.taken ≤ a.answered ∧ a.answered ≤ made
  current : t.work ≠ .reading → ∀ a ∈ t.answers, a.answered ≤ t.taken
  order : t.answers.Pairwise fun a b => a.answered ≤ b.taken

/-- A thread has made the calls of its frames and has answered them with what they returned. -/
structure ClientThread.Served (c₀ : Coordinator) (calls : List (ℕ × ClientCall)) (j : ℕ)
    (t : ClientThread) : Prop where
  made : ofClient j calls = t.handled.filterMap callOf
  replied : t.answers.map (·.frame) ++ t.work.pending.toList =
    t.loop.dispatched.filterMap repliedFrame
  positions : t.answers.filterMap (·.position) ++ t.work.position.toList = positionsOf j calls
  current : ∀ f, t.work = .frame f → ∃ before full, t.loop.dispatched = before ++ [full] ∧
    Frame.decode full = some (.ok f)
  work : t.work.Served c₀ calls j t.taken
  answers : ∀ a ∈ t.answers, Answers c₀ calls j a.frame a.position a.taken a.answered (.ok a.reply)
  chronological : t.Chronological calls.length
  crashed : t.crashed = false

/-- The coordinator is where its calls lead, and all threads are served. -/
structure AllServed (c₀ : Coordinator) (c : SharedCoordinator) (threads : List ClientThread) :
    Prop where
  coordinator : c.coordinator = coordinatorAt c₀ c.calls c.calls.length
  served : ∀ (j : ℕ) (t : ClientThread), threads[j]? = some t → t.Served c₀ c.calls j
  known : ∀ x ∈ c.calls, x.1 < threads.length

section Positions
variable {c₀ : Coordinator} {calls more : List (ℕ × ClientCall)} {j k : ℕ}

theorem coordinatorAt_append (hk : k ≤ calls.length) :
    coordinatorAt c₀ (calls ++ more) k = coordinatorAt c₀ calls k := by
  rw [coordinatorAt, coordinatorAt, List.take_append_of_le_length hk]

theorem coordinatorAt_concat (x : ℕ × ClientCall) :
    coordinatorAt c₀ (calls ++ [x]) (calls ++ [x]).length =
      clientMachine.next (coordinatorAt c₀ calls calls.length) x.2 := by
  rw [coordinatorAt, coordinatorAt, List.take_length, List.take_length, List.map_append,
    Machine.run_append]
  rfl

theorem positionsOf_concat (x : ℕ × ClientCall) : positionsOf j (calls ++ [x]) =
    positionsOf j calls ++ if x.1 = j then [calls.length] else [] := by
  rw [positionsOf, List.length_append, List.length_singleton, List.range_succ, List.filter_append]
  congr 1
  · refine List.filter_congr fun n hn => ?_
    rw [List.getElem?_append_left (List.mem_range.mp hn)]
  · by_cases hj : x.1 = j <;> simp [hj]

theorem lt_of_getElem? {α : Type*} {l : List α} {n : ℕ} {a : α} (h : l[n]? = some a) :
    n < l.length := (List.getElem?_eq_some_iff.mp h).choose

theorem StatusRead.append {first last read : ℕ} {sp : StatusPayload} (hlast : last ≤ calls.length)
    (h : StatusRead c₀ calls first last read sp) :
    StatusRead c₀ (calls ++ more) first last read sp := by
  obtain ⟨m, hmono, hle, hhealth, hsources, htotal, hstale, hepoch⟩ := h
  have hsame : ∀ i, coordinatorAt c₀ (calls ++ more) (m i) = coordinatorAt c₀ calls (m i) :=
    fun i => coordinatorAt_append ((hle i).2.trans hlast)
  refine ⟨m, hmono, hle, hhealth, ?_, ?_, ?_, ?_⟩
  · rwa [hsame]
  · rwa [hsame]
  · rwa [hsame]
  · rwa [hsame]

theorem StatusRead.mono {first first' last last' read : ℕ} {sp : StatusPayload}
    (hfirst : first' ≤ first) (hlast : last ≤ last')
    (h : StatusRead c₀ calls first last read sp) : StatusRead c₀ calls first' last' read sp := by
  obtain ⟨m, hmono, hle, hread⟩ := h
  exact ⟨m, hmono, fun i => ⟨hfirst.trans (hle i).1, (hle i).2.trans hlast⟩, hread⟩

/-- Later calls change no answer, and it may be given later. -/
theorem Answers.append {f : Frame} {position : Option ℕ} {first last last' : ℕ}
    {reply : Except Str Bytes} (hlast : last ≤ calls.length) (hlater : last ≤ last')
    (h : Answers c₀ calls j f position first last reply) :
    Answers c₀ (calls ++ more) j f position first last' reply := by
  unfold Answers at h ⊢
  cases hrequest : f.request with
  | register hello =>
    rw [hrequest] at h
    obtain ⟨n, k, hposition, hcall, hfirst, hlt, hle, hreply⟩ := h
    have hn := lt_of_getElem? hcall
    refine ⟨n, k, hposition, by rw [List.getElem?_append_left hn, hcall], hfirst, hlt,
      hle.trans hlater, ?_⟩
    rw [hreply, coordinatorAt_append (hle.trans hlast), coordinatorAt_append hn.le]
  | ingest o =>
    rw [hrequest] at h
    obtain ⟨n, hposition, hcall, hfirst, hlt, hreply⟩ := h
    have hn := lt_of_getElem? hcall
    exact ⟨n, hposition, by rw [List.getElem?_append_left hn, hcall], hfirst,
      hlt.trans_le hlater, by rw [hreply, coordinatorAt_append hn.le]⟩
  | status =>
    rw [hrequest] at h
    obtain ⟨hposition, sp, hread, hreply⟩ := h
    exact ⟨hposition, sp, (hread.append hlast).mono le_rfl hlater, hreply⟩
  | ping =>
    rw [hrequest] at h
    exact h
  | bye | nothing =>
    rw [hrequest] at h
    exact h

/-- The call of an answer was made after the frame was read and before it was answered. -/
theorem Answers.position_between {f : Frame} {n first last : ℕ} {reply : Except Str Bytes}
    (h : Answers c₀ calls j f (some n) first last reply) : first ≤ n ∧ n < last := by
  unfold Answers at h
  cases hrequest : f.request with
  | register hello =>
    rw [hrequest] at h
    obtain ⟨n', k, hposition, -, hfirst, hlt, hle, -⟩ := h
    obtain rfl := Option.some.inj hposition
    exact ⟨hfirst, hlt.trans_le hle⟩
  | ingest o =>
    rw [hrequest] at h
    obtain ⟨n', hposition, -, hfirst, hlt, -⟩ := h
    obtain rfl := Option.some.inj hposition
    exact ⟨hfirst, hlt⟩
  | status | ping =>
    rw [hrequest] at h
    cases h.1
  | bye | nothing =>
    rw [hrequest] at h
    exact h.elim

/-- The counters of a status are those of places between, from an earlier place on too. -/
theorem Answers.status_between {f : Frame} {position : Option ℕ} {first first' last : ℕ}
    {reply : Except Str Bytes} (hstatus : f.request = .status) (hfirst : first' ≤ first)
    (h : Answers c₀ calls j f position first last reply) :
    ∃ sp, StatusRead c₀ calls first' last 4 sp ∧ reply = sp.frame := by
  simp only [Answers, hstatus] at h
  obtain ⟨-, sp, hread, hreply⟩ := h
  exact ⟨sp, hread.mono hfirst le_rfl, hreply⟩

theorem ClientWork.Served.append {w : ClientWork} {first : ℕ} (h : w.Served c₀ calls j first) :
    w.Served c₀ (calls ++ more) j first := by
  have hlength : calls.length ≤ (calls ++ more).length := by simp
  cases w with
  | reading | frame f => trivial
  | registered f n auth =>
    obtain ⟨hello, hrequest, hcall, hfirst, hauth⟩ := h
    have hn := lt_of_getElem? hcall
    exact ⟨hello, hrequest, by rw [List.getElem?_append_left hn, hcall], hfirst,
      by rw [hauth, coordinatorAt_append hn.le]⟩
  | status f read sp => exact ⟨h.1, h.2.1, (h.2.2.append le_rfl).mono le_rfl hlength⟩
  | replying f position reply => exact Answers.append le_rfl hlength h

theorem ClientThread.Chronological.mono {made made' : ℕ} {t : ClientThread} (hmade : made ≤ made')
    (h : t.Chronological made) : t.Chronological made' where
  taken := h.taken.trans hmade
  answered := fun a ha => ⟨(h.answered a ha).1, (h.answered a ha).2.trans hmade⟩
  current := h.current
  order := h.order

/-- The call of another thread. -/
theorem ClientThread.Served.other {t : ClientThread} (h : t.Served c₀ calls j) {x : ℕ × ClientCall}
    (hx : x.1 ≠ j) : t.Served c₀ (calls ++ [x]) j where
  made := by simp [hx, h.made]
  replied := h.replied
  positions := by rw [positionsOf_concat, if_neg hx, List.append_nil, h.positions]
  current := h.current
  work := h.work.append
  answers := fun a ha => (h.answers a ha).append (h.chronological.answered a ha).2 le_rfl
  chronological := h.chronological.mono (by simp)
  crashed := h.crashed

end Positions

theorem ClientLoop.dispatched_resume (loop : ClientLoop) (r : RecvResult) (stop : Bool) :
    (loop.resume r stop).dispatched = loop.dispatched ∨ ∃ full f,
      Frame.decode full = some (.ok f) ∧
        (loop.resume r stop).dispatched = loop.dispatched ++ [full] := by
  obtain ⟨position, unread, consumed, dispatched⟩ := loop
  cases position with
  | ended => exact .inl rfl
  | probing =>
    simp only [resume]
    cases recvSome r <;> exact .inl rfl
  | reading reader =>
    simp only [resume]
    rcases recvFrame reader r with reader' | (e | full | full)
    · exact .inl rfl
    · exact .inl rfl
    · exact .inl rfl
    · simp only [handle]
      split
      · rename_i f hdecode
        exact .inr ⟨full, f, hdecode, rfl⟩
      · exact .inl rfl

/-- A call of `recv` completes a frame, or none. -/
theorem ClientLoop.taken_of_step {loop loop' : ClientLoop} {d : Delivery} {stop : Bool}
    (h : loop.step d stop = some loop') :
    (loop'.dispatched = loop.dispatched ∧ loop.taken loop' = .reading) ∨
      ∃ full f, Frame.decode full = some (.ok f) ∧
        loop'.dispatched = loop.dispatched ++ [full] ∧ loop.taken loop' = .frame f := by
  simp only [step, Option.bind_eq_bind, Option.bind_eq_some_iff, Option.pure_def,
    Option.some.injEq, Prod.exists] at h
  obtain ⟨n, -, r, rest, -, rfl⟩ := h
  rcases dispatched_resume { loop with unread := rest, consumed := loop.consumed ++ r.bytes } r stop
    with hsame | ⟨full, f, hdecode, hnew⟩
  · exact .inl ⟨hsame, by simp [taken, hsame]⟩
  · exact .inr ⟨full, f, hdecode, hnew, by simp [taken, hnew, hdecode]⟩

section Threads
variable {c₀ : Coordinator} {c c' : SharedCoordinator} {calls : List (ℕ × ClientCall)} {j : ℕ}
  {t t' : ClientThread} {stop : Bool}

theorem ClientThread.handled_of_frame {f : Frame} (hwork : t.work = .frame f) :
    t.handled = t.loop.dispatched.dropLast := by
  simp [handled, hwork]

theorem ClientThread.handled_of_not_frame (hwork : ∀ f, t.work ≠ .frame f) :
    t.handled = t.loop.dispatched := by
  unfold handled
  cases hw : t.work with
  | frame f => exact absurd hw (hwork f)
  | _ => rfl

theorem callOf_eq {full : Bytes} {f : Frame} (h : Frame.decode full = some (.ok f)) :
    callOf full = f.request.call := by
  simp [callOf, h]

/-- A thread that is not reading goes on with its answer. -/
theorem ClientThread.Chronological.working {made : ℕ} (h : t.Chronological made)
    (hwork : t.work ≠ .reading) (w : ClientWork) :
    ({ t with work := w } : ClientThread).Chronological made :=
  ⟨h.taken, h.answered, fun _ => h.current hwork, h.order⟩

theorem ClientRequest.replied_of_call {r : ClientRequest} {x : ClientCall} (hx : r.call = some x) :
    r.replied = true := by
  cases r with
  | register | ingest => rfl
  | status | ping | bye | nothing => cases hx

/-- The thread makes the call of its frame. -/
theorem ClientThread.Served.call (h : t.Served c₀ calls j) {f : Frame} (hwork : t.work = .frame f)
    {x : ClientCall} (hx : f.request.call = some x) {w : ClientWork}
    (hpending : w.pending = some f) (hposition : w.position = some calls.length)
    (hw : w.Served c₀ (calls ++ [(j, x)]) j t.taken) :
    ({ t with work := w } : ClientThread).Served c₀ (calls ++ [(j, x)]) j where
  made := by
    obtain ⟨before, full, hdispatched, hdecode⟩ := h.current f hwork
    have hframe : ∀ f', w ≠ .frame f' := by
      rintro f' rfl
      cases hposition
    have hmade := h.made
    rw [handled_of_frame hwork, hdispatched, List.dropLast_concat] at hmade
    rw [handled_of_not_frame (t := { t with work := w }) hframe, hdispatched,
      List.filterMap_append, ← hmade]
    simp [callOf_eq hdecode, hx]
  replied := by
    have hold := h.replied
    rw [hwork, ClientWork.pending, if_pos (ClientRequest.replied_of_call hx)] at hold
    rwa [hpending]
  positions := by
    have hold := h.positions
    rw [hwork] at hold
    rw [positionsOf_concat, if_pos rfl, ← hold, hposition]
    simp [ClientWork.position]
  current := by
    rintro f' rfl
    cases hposition
  work := hw
  answers := fun a ha => (h.answers a ha).append (h.chronological.answered a ha).2 le_rfl
  chronological := (h.chronological.working (by simp [hwork]) w).mono (by simp)
  crashed := h.crashed

/-- The thread goes on without a call. -/
theorem ClientThread.Served.go_on (h : t.Served c₀ calls j) (hworking : t.work ≠ .reading)
    {w : ClientWork} (hframe : ∀ f, w ≠ .frame f) (hpending : w.pending = t.work.pending)
    (hposition : w.position = t.work.position)
    (hhandled : (∀ f, t.work ≠ .frame f) ∨ ∃ f, t.work = .frame f ∧ f.request.call = none)
    (hw : w.Served c₀ calls j t.taken) :
    ({ t with work := w } : ClientThread).Served c₀ calls j where
  made := by
    rw [handled_of_not_frame (t := { t with work := w }) hframe, h.made]
    rcases hhandled with hnot | ⟨f, hwork, hnone⟩
    · rw [handled_of_not_frame hnot]
    · obtain ⟨before, full, hdispatched, hdecode⟩ := h.current f hwork
      rw [handled_of_frame hwork, hdispatched, List.dropLast_concat, List.filterMap_append]
      simp [callOf_eq hdecode, hnone]
  replied := by
    have hold := h.replied
    rwa [← hpending] at hold
  positions := by
    have hold := h.positions
    rwa [← hposition] at hold
  current := fun f hf => absurd hf (hframe f)
  work := hw
  answers := h.answers
  chronological := h.chronological.working hworking w
  crashed := h.crashed

/-- The reads of a status go on. -/
theorem StatusRead.next (hc : c.coordinator = coordinatorAt c₀ c.calls c.calls.length)
    {first read : ℕ} (hfirst : first ≤ c.calls.length) {sp sp' : StatusPayload}
    (h : StatusRead c₀ c.calls first c.calls.length read sp)
    (hnext : sp.readNext c.coordinator read = some sp') :
    read + 1 ≤ 4 ∧ StatusRead c₀ c.calls first c.calls.length (read + 1) sp' := by
  obtain ⟨m, hmono, hle, hhealth, hsources, htotal, hstale, hepoch⟩ := h
  have hlt : read < 4 := by
    by_contra hge
    obtain ⟨k, rfl⟩ := Nat.exists_eq_add_of_le (Nat.le_of_not_lt hge)
    rw [Nat.add_comm] at hnext
    cases hnext
  refine ⟨hlt, fun i => if i < read then m i else c.calls.length, fun i k hik => ?_,
    fun i => ?_, ?_⟩
  · dsimp only
    split_ifs with hi hk hk
    · exact hmono hik
    · exact (hle i).2
    · omega
    · exact le_rfl
  · dsimp only
    split_ifs
    · exact hle i
    · exact ⟨hfirst, le_rfl⟩
  · rw [hc] at hnext
    obtain rfl | rfl | rfl | rfl : read = 0 ∨ read = 1 ∨ read = 2 ∨ read = 3 := by omega
    all_goals
      obtain rfl := Option.some.inj hnext
      simp_all

/-- The next step in the `switch`. -/
theorem ClientThread.Served.advance (hc : c.coordinator = coordinatorAt c₀ c.calls c.calls.length)
    (h : t.Served c₀ c.calls j) (hreading : t.work ≠ .reading)
    (hreplying : ∀ f position reply, t.work ≠ .replying f position reply) :
    ({ t with work := (c.advance j t.work).2 } : ClientThread).Served c₀
      (c.advance j t.work).1.calls j := by
  have hwork := h.work
  have htaken := h.chronological.taken
  cases hw : t.work with
  | reading => exact absurd hw hreading
  | replying f position reply => exact absurd hw (hreplying f position reply)
  | frame f =>
    have hat : ∀ x, coordinatorAt c₀ (c.calls ++ [(j, x)]) c.calls.length = c.coordinator :=
      fun x => by rw [coordinatorAt_append le_rfl, hc]
    cases hrequest : f.request with
    | register hello =>
      simp only [SharedCoordinator.advance, hrequest]
      refine h.call hw (x := .hello hello) (by simp [hrequest, ClientRequest.call]) rfl rfl ?_
      exact ⟨hello, hrequest, by simp, htaken, by rw [hat]⟩
    | ingest o =>
      simp only [SharedCoordinator.advance, hrequest]
      refine h.call hw (x := .ingest o) (by simp [hrequest, ClientRequest.call]) rfl rfl ?_
      simp only [ClientWork.Served, Answers, hrequest]
      exact ⟨_, rfl, by simp, htaken, by simp, by rw [hat]⟩
    | status =>
      simp only [SharedCoordinator.advance, hrequest]
      refine h.go_on hreading (by simp) (by simp [hw, ClientWork.pending, hrequest,
        ClientRequest.replied]) (by rw [hw]; rfl) (.inr ⟨f, hw, by rw [hrequest]; rfl⟩) ?_
      exact ⟨hrequest, by omega, fun _ => t.taken, monotone_const, fun _ => ⟨le_rfl, htaken⟩, rfl,
        by simp⟩
    | ping =>
      simp only [SharedCoordinator.advance, hrequest]
      refine h.go_on hreading (by simp) (by simp [hw, ClientWork.pending, hrequest,
        ClientRequest.replied]) (by rw [hw]; rfl) (.inr ⟨f, hw, by rw [hrequest]; rfl⟩) ?_
      simp only [ClientWork.Served, Answers, hrequest]
      exact ⟨trivial, trivial⟩
    | bye | nothing =>
      simp only [SharedCoordinator.advance, hrequest]
      exact h.go_on hreading (by simp) (by simp [hw, ClientWork.pending, hrequest,
        ClientRequest.replied]) (by rw [hw]; rfl) (.inr ⟨f, hw, by rw [hrequest]; rfl⟩) trivial
  | registered f n auth =>
    rw [hw] at hwork
    obtain ⟨hello, hrequest, hcall, hfirst, hauth⟩ := hwork
    simp only [SharedCoordinator.advance]
    refine h.go_on hreading (by simp) (by rw [hw]; rfl) (by rw [hw]; rfl)
      (.inl fun f' => by simp [hw]) ?_
    simp only [ClientWork.Served, Answers, hrequest]
    exact ⟨n, c.calls.length, rfl, hcall, hfirst, lt_of_getElem? hcall, le_rfl,
      by rw [← hc, hauth]⟩
  | status f read sp =>
    rw [hw] at hwork
    obtain ⟨hrequest, hle, hread⟩ := hwork
    simp only [SharedCoordinator.advance]
    cases hnext : sp.readNext c.coordinator read with
    | some sp' =>
      obtain ⟨hle', hread'⟩ := StatusRead.next hc htaken hread hnext
      exact h.go_on hreading (by simp) (by rw [hw]; rfl) (by rw [hw]; rfl)
        (.inl fun f' => by simp [hw]) ⟨hrequest, hle', hread'⟩
    | none =>
      have hfour : read = 4 := by
        by_contra hne
        obtain rfl | rfl | rfl | rfl : read = 0 ∨ read = 1 ∨ read = 2 ∨ read = 3 := by omega
        all_goals cases hnext
      refine h.go_on hreading (by simp) (by rw [hw]; rfl) (by rw [hw]; rfl)
        (.inl fun f' => by simp [hw]) ?_
      simp only [ClientWork.Served, Answers, hrequest]
      exact ⟨trivial, sp, hfour ▸ hread, rfl⟩

/-- No writer of a reply throws. -/
theorem Answers.ok {f : Frame} {position : Option ℕ} {first last : ℕ} {reply : Except Str Bytes}
    (h : Answers c₀ calls j f position first last reply) : ∃ b, reply = .ok b := by
  have hframe : ∀ {kind : MsgType} {payload : Except Str Bytes} {b : Bytes}, payload = .ok b →
      ∃ full, (do Frame.encode kind (← payload) : Except Str Bytes) = .ok full := by
    intro kind payload b hb
    exact ⟨_, Decoding.bind_eq_ok.mpr ⟨b, hb, Frame.encode_eq kind b kProtocolVersion⟩⟩
  unfold Answers at h
  split at h
  · obtain ⟨n, k, -, -, -, -, -, rfl⟩ := h
    obtain ⟨a, -, hregister⟩ := (coordinatorAt c₀ calls n).registry.registerSource_eq
      (Coordinator.helloObservation _) _ false
    obtain ⟨b, hb, -, -⟩ := encodeObsAck_ok (a := {
      accepted := true, decision := AuthorityDecision.accepted.code,
      acceptedTotal := (coordinatorAt c₀ calls k).acceptedTotal, reason := [] })
      (Nat.two_pow_pos 32)
    rw [Coordinator.helloAckFrame, Coordinator.registerHello, hregister]
    exact hframe hb
  · obtain ⟨n, -, -, -, -, rfl⟩ := h
    obtain ⟨b, hb, -, -⟩ := encodeObsAck_ok
      (a := ((coordinatorAt c₀ calls n).ingest _).1.ack)
      (((coordinatorAt c₀ calls n).length_reason_le _).trans_lt (by decide))
    exact hframe hb
  · obtain ⟨-, sp, hread, rfl⟩ := h
    obtain ⟨m, -, -, hhealth, -⟩ := hread
    have hfits : sp.Fits := by
      rw [StatusPayload.Fits, hhealth]
      decide
    exact hframe ((sp.emits.run_eq_ok_iff _).mpr ⟨hfits, rfl⟩)
  · obtain ⟨-, rfl⟩ := h
    exact ⟨_, Frame.encode_eq .pong [] kProtocolVersion⟩
  · exact h.elim
  · exact h.elim

/-- What is done next in the `switch` makes one call, or none. -/
theorem SharedCoordinator.advance_shared (c : SharedCoordinator) (j : ℕ) (w : ClientWork) :
    (c.advance j w).1 = c ∨ ∃ x, (c.advance j w).1 = c.call j x := by
  cases w with
  | frame f =>
    simp only [advance]
    cases f.request with
    | register hello => exact .inr ⟨.hello hello, rfl⟩
    | ingest o => exact .inr ⟨.ingest o, rfl⟩
    | _ => exact .inl rfl
  | status f read sp =>
    left
    simp only [advance]
    cases sp.readNext c.coordinator read <;> rfl
  | _ => exact .inl rfl

/-- A step of a thread takes it to later times. -/
theorem ClientThread.Chronological.step (h : t.Chronological c.calls.length)
    (hstep : ClientThread.Step j stop (c, t) (c', t')) : t'.Chronological c'.calls.length := by
  cases hstep with
  | arrive bs => exact ⟨h.taken, h.answered, h.current, h.order⟩
  | recv d loop hwork hloop =>
    exact ⟨le_rfl, h.answered, fun _ a ha => (h.answered a ha).2, h.order⟩
  | advance hreading hreplying =>
    refine (h.working hreading _).mono ?_
    rcases c.advance_shared j t.work with hsame | ⟨x, hcall⟩
    · rw [hsame]
    · simp [hcall, SharedCoordinator.call]
  | send f position reply n hwork hn =>
    have hcurrent := h.current (by simp [hwork])
    refine ⟨h.taken, fun a ha => ?_, fun hne => absurd rfl hne, ?_⟩
    · rcases List.mem_append.mp ha with hold | hnew
      · exact h.answered a hold
      · obtain rfl := List.mem_singleton.mp hnew
        exact ⟨h.taken, le_rfl⟩
    · refine List.pairwise_append.mpr ⟨h.order, List.pairwise_singleton _ _, fun a ha b hb => ?_⟩
      obtain rfl := List.mem_singleton.mp hb
      exact hcurrent a ha
  | throw f position e hwork => exact ⟨h.taken, h.answered, fun hne => absurd rfl hne, h.order⟩

theorem repliedFrame_eq {full : Bytes} {f : Frame} (h : Frame.decode full = some (.ok f)) :
    repliedFrame full = if f.request.replied then some f else none := by
  simp [repliedFrame, h]

/-- A step of a thread keeps it served. -/
theorem ClientThread.Served.step (hc : c.coordinator = coordinatorAt c₀ c.calls c.calls.length)
    (h : t.Served c₀ c.calls j) (hstep : ClientThread.Step j stop (c, t) (c', t')) :
    t'.Served c₀ c'.calls j := by
  have htimes := h.chronological.step hstep
  cases hstep with
  | arrive bs =>
    refine ⟨h.made.trans ?_, h.replied, h.positions, h.current, h.work, h.answers, htimes,
      h.crashed⟩
    unfold handled
    cases t.work <;> rfl
  | recv d loop hwork hloop =>
    have hmade := h.made
    have hreplied := h.replied
    have hpositions := h.positions
    rw [handled_of_not_frame (by simp [hwork])] at hmade
    rw [hwork] at hpositions hreplied
    rcases ClientLoop.taken_of_step hloop with ⟨hsame, htaken⟩ | ⟨full, f, hdecode, hnew, htaken⟩
    · refine ⟨?_, ?_, htaken ▸ hpositions, fun f hf => ?_, htaken ▸ trivial, h.answers, htimes,
        h.crashed⟩
      · rw [handled_of_not_frame (by simp [htaken]), hmade, hsame]
      · rw [htaken, hsame]
        exact hreplied
      · rw [htaken] at hf
        cases hf
    · refine ⟨?_, ?_, htaken ▸ hpositions, fun f' hf => ?_, htaken ▸ trivial, h.answers, htimes,
        h.crashed⟩
      · rw [handled_of_frame (f := f) htaken, hnew, List.dropLast_concat, hmade]
      · rw [htaken, hnew, List.filterMap_append, ← hreplied]
        simp only [ClientWork.pending, Option.toList_none, List.append_nil]
        rw [List.filterMap_cons, repliedFrame_eq hdecode]
        cases f.request.replied <;> rfl
      · obtain rfl := ClientWork.frame.inj (htaken.symm.trans hf)
        exact ⟨t.loop.dispatched, full, hnew, hdecode⟩
  | advance hreading hreplying => exact h.advance hc hreading hreplying
  | send f position reply n hwork hn =>
    have hmade := h.made
    have hreplied := h.replied
    have hpositions := h.positions
    have hserved := h.work
    rw [handled_of_not_frame (by simp [hwork])] at hmade
    rw [hwork] at hpositions hserved hreplied
    refine ⟨?_, ?_, ?_, nofun, trivial, fun a ha => ?_, htimes, h.crashed⟩
    · rw [hmade, handled_of_not_frame fun f' hf => by cases hf]
    · rw [← hreplied]
      simp [ClientWork.pending]
    · rw [← hpositions, List.filterMap_append]
      cases position <;> simp [ClientWork.position]
    · rcases List.mem_append.mp ha with hold | hnew
      · exact h.answers a hold
      · obtain rfl := List.mem_singleton.mp hnew
        exact hserved
  | throw f position e hwork =>
    have hserved := h.work
    rw [hwork] at hserved
    obtain ⟨b, hb⟩ := Answers.ok hserved
    cases hb

/-- A thread makes the calls of its own number alone. -/
theorem ClientThread.Step.shared (hstep : ClientThread.Step j stop (c, t) (c', t')) :
    c' = c ∨ ∃ x, c' = c.call j x := by
  cases hstep with
  | arrive | recv | send | throw => exact .inl rfl
  | advance => exact c.advance_shared j t.work

end Threads

section Runs
variable {ι : Type*} [DecidableEq ι] {c₀ : Coordinator}

/-- The server with the coordinator it was given. -/
abbrev ServerRun (c₀ : Coordinator) (s : CoordinatorServer ι SharedCoordinator ClientThread) :
    Prop :=
  ReflTransGen (CoordinatorServer.Step clientHandler) { coord := { coordinator := c₀ } } s

/-- A thread goes on while the others stay where they are. -/
theorem AllServed.client {c c' : SharedCoordinator} {threads : List ClientThread}
    (h : AllServed c₀ c threads) {j : ℕ} {t t' : ClientThread} {stop : Bool}
    (hj : threads[j]? = some t) (hstep : ClientThread.Step j stop (c, t) (c', t')) :
    AllServed c₀ c' (threads.set j t') := by
  have hlt := lt_of_getElem? hj
  have hown := (h.served j t hj).step h.coordinator hstep
  rcases hstep.shared with rfl | ⟨x, rfl⟩
  · refine ⟨h.coordinator, fun k u hk => ?_, fun x hx => (h.known x hx).trans_eq (by simp)⟩
    rw [List.getElem?_set] at hk
    split_ifs at hk with hjk
    · obtain rfl := hjk
      exact Option.some.inj hk ▸ hown
    · exact h.served k u hk
  · refine ⟨?_, fun k u hk => ?_, fun y hy => ?_⟩
    · rw [SharedCoordinator.call, coordinatorAt_concat, ← h.coordinator]
    · rw [List.getElem?_set] at hk
      split_ifs at hk with hjk
      · obtain rfl := hjk
        exact Option.some.inj hk ▸ hown
      · exact (h.served k u hk).other hjk
    · rw [List.length_set]
      rcases List.mem_append.mp hy with hold | hnew
      · exact h.known y hold
      · exact List.mem_singleton.mp hnew ▸ hlt

/-- A connection is new. -/
theorem AllServed.emplace {c : SharedCoordinator} {threads : List ClientThread}
    (h : AllServed c₀ c threads) : AllServed c₀ c (threads ++ [({} : ClientThread)]) := by
  refine ⟨h.coordinator, fun j t hj => ?_, fun x hx => (h.known x hx).trans_le (by simp)⟩
  rw [List.getElem?_append] at hj
  split_ifs at hj with hlt
  · exact h.served j t hj
  · have hnew : t = {} := by
      rw [List.getElem?_singleton] at hj
      split_ifs at hj
      exact (Option.some.inj hj).symm
    have hnone : ∀ x ∈ c.calls, x.1 ≠ j := fun x hx => by have := h.known x hx; omega
    subst hnew
    refine ⟨?_, rfl, ?_, nofun, trivial, nofun, ⟨Nat.zero_le _, nofun, nofun, .nil⟩, rfl⟩
    · rw [ofClient, List.filter_eq_nil_iff.mpr (by simpa using hnone)]
      rfl
    · rw [positionsOf, List.filter_eq_nil_iff.mpr]
      · rfl
      · intro n hn
        have hget := List.getElem?_eq_getElem (List.mem_range.mp hn)
        simpa [hget] using hnone _ (List.getElem_mem _)

theorem allServed_start (c₀ : Coordinator) : AllServed c₀ { coordinator := c₀ } [] where
  coordinator := rfl
  served := fun j t hj => by simp at hj
  known := fun x hx => by cases hx

/-- What the accepting thread holds is a connection on which nothing was done. -/
theorem allServed_run {s : CoordinatorServer ι SharedCoordinator ClientThread}
    (hrun : ServerRun c₀ s) : AllServed c₀ s.coord s.threads ∧
      ∀ t, s.acceptor = .connected t ∨ s.acceptor = .emplacing t → t = {} := by
  induction hrun with
  | refl => exact ⟨allServed_start c₀, fun t ht => by rcases ht with ht | ht <;> cases ht⟩
  | @tail s s' _ hstep ih =>
    obtain ⟨h, hnew⟩ := ih
    cases hstep with
    | test | readStop | readRunning =>
      refine ⟨h, fun t ht => ?_⟩
      dsimp only at ht
      split_ifs at ht <;> rcases ht with ht | ht <;> cases ht
    | connect t _ _ hstarts =>
      refine ⟨h, fun u hu => ?_⟩
      rcases hu with hu | hu
      · exact AcceptorPhase.connected.inj hu ▸ hstarts
      · cases hu
    | noConnection | unlockClients =>
      exact ⟨h, fun t ht => by rcases ht with ht | ht <;> cases ht⟩
    | lockClients t hacc =>
      refine ⟨h, fun u hu => ?_⟩
      rcases hu with hu | hu
      · cases hu
      · exact AcceptorPhase.emplacing.inj hu ▸ hnew t (.inl hacc)
    | emplace t hacc =>
      obtain rfl := hnew t (.inr hacc)
      exact ⟨h.emplace, fun t ht => by rcases ht with ht | ht <;> cases ht⟩
    | client j t t' c hj hclient => exact ⟨h.client hj hclient, hnew⟩
    | exchange | request | close | joinAcceptor | lock | joinClient | clear => exact ⟨h, hnew⟩

end Runs

section Acceptance
variable {c₀ : Coordinator} {calls : List (ℕ × ClientCall)}

/-- What is accepted stays accepted. -/
theorem Coordinator.accepted_next {c : Coordinator} {id : ObservationId} {o : Observation}
    (h : c.accepted[id]? = some o) (x : ClientCall) :
    (clientMachine.next c x).accepted[id]? = some o := by
  rw [(evidence_next c x).1]
  cases x with
  | hello hp => exact h
  | ingest o' =>
    rcases c.ingest_cases o' with ⟨-, hacc, -⟩ | ⟨-, hacc, -, -⟩ | ⟨hnew, hacc, -⟩
    · rw [gain, hacc]
      exact h
    · rw [gain, hacc]
      exact h
    · have hne : o'.id ≠ id := by
        rintro rfl
        rw [hnew] at h
        cases h
      rw [gain, hacc]
      simp [Std.ExtTreeMap.getElem?_insert, hne, h]

theorem coordinatorAt_succ {n : ℕ} {x : ℕ × ClientCall} (h : calls[n]? = some x) :
    coordinatorAt c₀ calls (n + 1) = clientMachine.next (coordinatorAt c₀ calls n) x.2 := by
  rw [coordinatorAt, coordinatorAt, List.take_add_one, h, List.map_append, Machine.run_append]
  rfl

theorem accepted_later {k k' : ℕ} (hk : k ≤ k') {id : ObservationId} {o : Observation}
    (h : (coordinatorAt c₀ calls k).accepted[id]? = some o) :
    (coordinatorAt c₀ calls k').accepted[id]? = some o := by
  induction k', hk using Nat.le_induction with
  | base => exact h
  | succ n _ ih =>
    cases hn : calls[n]? with
    | some x =>
      rw [coordinatorAt_succ hn]
      exact Coordinator.accepted_next ih x.2
    | none =>
      have hlen := List.getElem?_eq_none_iff.mp hn
      rw [coordinatorAt, List.take_of_length_le (by omega)]
      rwa [coordinatorAt, List.take_of_length_le hlen] at ih

/-- An observation is accepted into the map, and no identity twice. -/
theorem accepted_at {n j : ℕ} {o : Observation} (hcall : calls[n]? = some (j, .ingest o))
    (hacc : ((coordinatorAt c₀ calls n).ingest o).1.accepted = true) :
    (coordinatorAt c₀ calls n).accepted[o.id]? = none ∧
      (coordinatorAt c₀ calls (n + 1)).accepted[o.id]? = some o := by
  rw [coordinatorAt_succ hcall]
  change _ ∧ ((coordinatorAt c₀ calls n).ingest o).2.accepted[o.id]? = some o
  rcases (coordinatorAt c₀ calls n).ingest_cases o with ⟨-, hno, -⟩ | ⟨-, hno, -, -⟩ |
      ⟨hnew, -, a, -, -, hnext⟩
  · rw [hacc] at hno
    cases hno
  · rw [hacc] at hno
    cases hno
  · exact ⟨hnew, by rw [hnext, Coordinator.getElem?_accepted_admitted, if_pos rfl]⟩

theorem accepted_once {n n' j j' : ℕ} {o o' : Observation}
    (hcall : calls[n]? = some (j, .ingest o)) (hcall' : calls[n']? = some (j', .ingest o'))
    (hacc : ((coordinatorAt c₀ calls n).ingest o).1.accepted = true)
    (hacc' : ((coordinatorAt c₀ calls n').ingest o').1.accepted = true) (hid : o.id = o'.id) :
    n = n' := by
  have hlt : ∀ {n n' j j' : ℕ} {o o' : Observation}, calls[n]? = some (j, .ingest o) →
      calls[n']? = some (j', .ingest o') →
      ((coordinatorAt c₀ calls n).ingest o).1.accepted = true →
      ((coordinatorAt c₀ calls n').ingest o').1.accepted = true → o.id = o'.id → ¬ n < n' := by
    intro n n' j j' o o' hcall hcall' hacc hacc' hid hlt
    have hkept := accepted_later hlt (accepted_at hcall hacc).2
    rw [hid, (accepted_at hcall' hacc').1] at hkept
    cases hkept
  have hge := hlt hcall hcall' hacc hacc' hid
  have hle := hlt hcall' hcall hacc' hacc hid.symm
  omega

/-- The client reads the result in its answer. -/
theorem ackOf_ackFrame (c : Coordinator) (o : Observation) {b : Bytes}
    (h : (c.ingest o).1.ackFrame = .ok b) : ackOf (.ok (some b)) = .ok (c.ingest o).1.ack := by
  obtain ⟨full, hdispatch, -, hack⟩ := c.dispatch_ingest o
  have hreply : (c.dispatch (.ingest o)).1 = (c.ingest o).1.ackFrame.map some := by
    simp only [Coordinator.dispatch, IngestResult.ackFrame]
    cases encodeObsAck (c.ingest o).1.accepted (c.ingest o).1.decision
        (c.ingest o).1.acceptedTotal (c.ingest o).1.reason with
    | error e => rfl
    | ok payload =>
      change (Frame.encode .obsAck payload).bind _ = (Frame.encode .obsAck payload).map some
      cases Frame.encode .obsAck payload <;> rfl
  rw [hdispatch, h] at hreply
  obtain rfl := Option.some.inj (Except.ok.inj hreply)
  exact hack

end Acceptance

section Acknowledgements
variable {ι : Type*} [DecidableEq ι] {c₀ : Coordinator}
  {s : CoordinatorServer ι SharedCoordinator ClientThread}

/-- An answer in which a client reads that its observation was accepted. -/
def AckedAccepted (s : CoordinatorServer ι SharedCoordinator ClientThread) (o : Observation)
    (position : Option ℕ) : Prop :=
  ∃ (j : ℕ) (t : ClientThread), s.threads[j]? = some t ∧ ∃ a ∈ t.answers,
    a.frame.request = .ingest o ∧ a.position = position ∧
      ∃ p, ackOf (.ok (some a.reply)) = .ok p ∧ p.accepted = true

omit [DecidableEq ι] in
theorem AllServed.acked (h : AllServed c₀ s.coord s.threads) {o : Observation}
    {position : Option ℕ} (hacked : AckedAccepted s o position) : ∃ n j, position = some n ∧
      s.coord.calls[n]? = some (j, .ingest o) ∧
      ((coordinatorAt c₀ s.coord.calls n).ingest o).1.accepted = true := by
  obtain ⟨j, t, hj, a, ha, hrequest, rfl, p, hack, hacc⟩ := hacked
  have hanswers := (h.served j t hj).answers a ha
  simp only [Answers, hrequest] at hanswers
  obtain ⟨n, hposition, hcall, -, -, hreply⟩ := hanswers
  rw [ackOf_ackFrame _ o hreply.symm, Except.ok.injEq] at hack
  exact ⟨n, j, hposition, hcall, by rw [← hack] at hacc; exact hacc⟩

/-- A client sends a HELLO and an observation at once and reads two acknowledgements. -/
def helloObservationActions : List ClientThread.Action :=
  let frames := [HelloPayload.frame {}, Observation.frame {}].flatMap fun e => e.toOption.getD []
  [.arrive frames, .recv (.data 4), .recv (.data 92), .advance, .advance, .send 22,
    .recv (.data 4), .recv (.data 116), .advance, .send 22]

def helloAndObservation : Option (SharedCoordinator × ClientThread) :=
  helloObservationActions.foldlM (ClientThread.act 0 false) ({ coordinator := {} }, {})

/-- What the client reads in an answer to an observation. -/
def ClientAnswer.view (a : ClientAnswer) : Option (ObservationId × Option ℕ × Bool) :=
  match a.frame.request, ackOf (.ok (some a.reply)) with
  | .ingest o, .ok p => some (o.id, a.position, p.accepted)
  | _, _ => none

theorem ClientAnswer.of_view {a : ClientAnswer} {id : ObservationId} {position : Option ℕ}
    {accepted : Bool} (h : a.view = some (id, position, accepted)) :
    ∃ o, a.frame.request = .ingest o ∧ a.position = position ∧
      ∃ p, ackOf (.ok (some a.reply)) = .ok p ∧ p.accepted = accepted := by
  unfold ClientAnswer.view at h
  split at h
  · rename_i o p hrequest hack
    simp only [Option.some.injEq, Prod.mk.injEq] at h
    exact ⟨o, hrequest, h.2.1, p, hack, h.2.2⟩
  · cases h

theorem views_helloAndObservation : helloAndObservation.map (·.2.answers.map ClientAnswer.view) =
    some [none, some ({}, some 1, true)] := by
  decide +kernel

/-- The server with one connection. -/
def oneConnection (ι : Type*) : CoordinatorServer ι SharedCoordinator ClientThread :=
  { coord := { coordinator := {} }, clients := [0], threads := [{}] }

theorem serverRun_oneConnection : ServerRun {} (oneConnection ι) := by
  have htest := CoordinatorServer.Step.test (H := clientHandler)
    (s := ({ coord := { coordinator := {} } } :
      CoordinatorServer ι SharedCoordinator ClientThread)) rfl
  have hnew : clientHandler.starts ({} : ClientThread) := rfl
  have hconnect := (ReflTransGen.single htest).tail (.connect _ rfl rfl hnew)
  exact ((hconnect.tail (.lockClients _ rfl rfl)).tail (.emplace _ rfl)).tail (.unlockClients rfl)

/-- The client on a connection of the server, which is then asked to stop. -/
theorem exists_run_helloAndObservation (i : ι) :
    ∃ (s : CoordinatorServer ι SharedCoordinator ClientThread) (o : Observation),
      ServerRun {} s ∧ s.stop i = .requesting ∧ ∃ t a, s.threads[0]? = some t ∧ a ∈ t.answers ∧
        a.frame.request = .ingest o ∧ a.position = some 1 ∧
        ∃ p, ackOf (.ok (some a.reply)) = .ok p ∧ p.accepted = true := by
  have hviews := views_helloAndObservation
  obtain ⟨x, hx⟩ : ∃ x, helloAndObservation = some x := by
    cases h : helloAndObservation with
    | none => simp [h] at hviews
    | some x => exact ⟨x, rfl⟩
  have hexchange := serverRun_oneConnection.tail (.exchange i rfl)
  have hclient : ReflTransGen (clientHandler.step 0 false) ({ coordinator := {} }, {}) x :=
    ClientThread.run_of_acts hx
  have hrun := CoordinatorServer.client_goes_on
    (s := { (oneConnection ι).setStop i .requesting with running := false }) rfl hclient
  rw [hx, Option.map_some, Option.some.injEq] at hviews
  obtain ⟨a, ha, hview⟩ : ∃ a ∈ x.2.answers, a.view = some ({}, some 1, true) :=
    List.mem_map.mp (hviews ▸ by simp)
  obtain ⟨o, hrequest, hposition, hack⟩ := ClientAnswer.of_view hview
  exact ⟨_, o, hexchange.trans hrun, Function.update_self .., x.2, a, rfl, ha, hrequest,
    hposition, hack⟩

/-- In every run of the server the coordinator is where one sequence of calls leads. The part of
each connection in it are the calls of its frames, in their order. Its frames are answered one by
one, and each answer is made of what the coordinator returns at places between the moment at which
the frame was read and the moment at which it was answered. So the sequence agrees with the order
in time, on one connection and between two: once a call is answered, the calls and the counters of
frames that are read afterwards come after it. No writer of an answer throws. -/
theorem served_calls_serialize (hrun : ServerRun c₀ s) :
    s.coord.coordinator = clientMachine.run c₀ (s.coord.calls.map Prod.snd) ∧
      (∀ j t, s.threads[j]? = some t →
        ofClient j s.coord.calls = t.handled.filterMap callOf ∧
        t.answers.map (·.frame) ++ t.work.pending.toList =
          t.loop.dispatched.filterMap repliedFrame ∧
        t.answers.filterMap (·.position) ++ t.work.position.toList =
          positionsOf j s.coord.calls ∧
        (∀ a ∈ t.answers, Answers c₀ s.coord.calls j a.frame a.position a.taken a.answered
          (.ok a.reply)) ∧
        t.Chronological s.coord.calls.length ∧
        t.crashed = false) ∧
      ∀ (j k : ℕ) (t u : ClientThread), s.threads[j]? = some t → s.threads[k]? = some u →
        ∀ a ∈ t.answers, ∀ b ∈ u.answers, ∀ m, a.position = some m → a.answered ≤ b.taken →
          (∀ n, b.position = some n → m < n) ∧
          (b.frame.request = .status → ∃ sp,
            StatusRead c₀ s.coord.calls (m + 1) b.answered 4 sp ∧ .ok b.reply = sp.frame) := by
  obtain ⟨h, -⟩ := allServed_run hrun
  refine ⟨?_, fun j t hj => ?_, fun j k t u hj hk a ha b hb m hm hbefore => ?_⟩
  · rw [h.coordinator, coordinatorAt, List.take_length]
  · have hserved := h.served j t hj
    exact ⟨hserved.made, hserved.replied, hserved.positions, hserved.answers,
      hserved.chronological, hserved.crashed⟩
  · have hfirst := (h.served j t hj).answers a ha
    have hsecond := (h.served k u hk).answers b hb
    rw [hm] at hfirst
    have hlater : m < b.taken := hfirst.position_between.2.trans_le hbefore
    refine ⟨fun n hn => ?_, fun hstatus => hsecond.status_between hstatus hlater⟩
    rw [hn] at hsecond
    exact hlater.trans_le hsecond.position_between.1

/-- Two frames of one connection, the second of them acknowledged. -/
theorem served_calls_serialize_hello : ∃ (s : CoordinatorServer Unit SharedCoordinator
    ClientThread) (t : ClientThread), s.threads[0]? = some t ∧
      ofClient 0 s.coord.calls = t.handled.filterMap callOf ∧ 1 ∈ positionsOf 0 s.coord.calls := by
  obtain ⟨s, o, hrun, -, t, a, ht, ha, -, hposition, -⟩ := exists_run_helloAndObservation ()
  obtain ⟨hmade, -, hpositions, -⟩ := (served_calls_serialize hrun).2.1 0 t ht
  refine ⟨s, t, ht, hmade, ?_⟩
  rw [← hpositions]
  exact List.mem_append_left _ (List.mem_filterMap.mpr ⟨a, ha, hposition⟩)

/-- Whatever clients are connected and however their threads interleave: an observation whose
acceptance was acknowledged is in the coordinator for good, and no two calls, on whatever
connections, have the acceptance of one identity acknowledged. -/
theorem acknowledged_kept_once (hrun : ServerRun c₀ s) :
    (∀ o position, AckedAccepted s o position →
      s.coord.coordinator.accepted[o.id]? = some o) ∧
    ∀ o o' position position', AckedAccepted s o position → AckedAccepted s o' position' →
      o.id = o'.id → position = position' ∧ o = o' := by
  obtain ⟨h, -⟩ := allServed_run hrun
  refine ⟨fun o position hacked => ?_, fun o o' position position' hacked hacked' hid => ?_⟩
  · obtain ⟨n, j, -, hcall, hacc⟩ := h.acked hacked
    rw [h.coordinator]
    exact accepted_later (lt_of_getElem? hcall) (accepted_at hcall hacc).2
  · obtain ⟨n, j, rfl, hcall, hacc⟩ := h.acked hacked
    obtain ⟨n', j', rfl, hcall', hacc'⟩ := h.acked hacked'
    obtain rfl := accepted_once hcall hcall' hacc hacc' hid
    have hsame := Option.some.inj (hcall.symm.trans hcall')
    exact ⟨rfl, ClientCall.ingest.inj (Prod.mk.inj hsame).2⟩

/-- A client whose observation was accepted. -/
theorem acknowledged_kept_once_hello : ∃ (s : CoordinatorServer Unit SharedCoordinator
    ClientThread) (o : Observation), ServerRun {} s ∧ AckedAccepted s o (some 1) ∧
      s.coord.coordinator.accepted[o.id]? = some o := by
  obtain ⟨s, o, hrun, -, t, a, ht, ha, hrequest, hposition, hack⟩ :=
    exists_run_helloAndObservation ()
  have hacked : AckedAccepted s o (some 1) := ⟨0, t, ht, a, ha, hrequest, hposition, hack⟩
  exact ⟨s, o, hrun, hacked, (acknowledged_kept_once hrun).1 o (some 1) hacked⟩

end Acknowledgements
end ServingObservatory
