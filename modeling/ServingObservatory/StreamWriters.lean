import ServingObservatory.ClientLoop
import ServingObservatory.Interleaving

/-!
# Writers that share a stream

`send_all` takes the mutex of the stream and calls `send` until all bytes are taken, which may
be in parts. Several threads may call it at once. The mutex keeps their bytes apart: what is on
the wire are the bytes of one call after the other, in the order in which the calls return. The
socket is open throughout; on a closed one `send_all` fails before it takes the mutex.
-/
namespace ServingObservatory
open Interleaving Relation

/-- What one call of `send` returns: the number of bytes that it has taken, or an error code. -/
inductive SendResult
  | sent (n : ℕ)
  | error (code : ℕ)
  deriving DecidableEq

def wsaEWouldBlock : ℕ := 10035

def wsaETimedOut : ℕ := 10060

/-- The largest number of bytes that a call of `send` is given. -/
def intMax : ℕ := 2 ^ 31 - 1

/-- How much `send_all` gives to the next call of `send`. -/
def sendChunk (data : Bytes) (sent : ℕ) : ℕ := min (data.length - sent) intMax

def lastWsaError (err : ℕ) : Str := lit "winsock error " ++ decimal err

/-- `send_all` after one more call of `send`: it goes on, or fails. -/
inductive SendAllStep
  | more (sent : ℕ)
  | failed (message : Str)
  deriving DecidableEq

def sendAll (sent : ℕ) : SendResult → SendAllStep
  | .error code =>
    if code = wsaEWouldBlock ∨ code = wsaETimedOut then .more sent
    else .failed (lit "send failed: " ++ lastWsaError code)
  | .sent n => if n = 0 then .failed (lit "send reached zero bytes") else .more (sent + n)

/-- The bytes that a call of `send` puts on the wire. -/
def SendResult.bytes (data : Bytes) (sent : ℕ) : SendResult → Bytes
  | .sent n => (data.drop sent).take n
  | .error _ => []

/-- `send` takes no more than it is given. -/
def SendResult.Possible (chunk : ℕ) : SendResult → Prop
  | .sent n => n ≤ chunk
  | .error _ => True

instance (chunk : ℕ) : DecidablePred (SendResult.Possible chunk)
  | .sent n => inferInstanceAs (Decidable (n ≤ chunk))
  | .error _ => .isTrue trivial

/-- Where a thread is in `send_all`: not in it, before the mutex, or in the loop. -/
inductive WriterPhase
  | idle
  | waiting (data : Bytes)
  | sending (data : Bytes) (sent : ℕ)
  deriving DecidableEq

/-- The data of a call that has not returned. -/
def WriterPhase.data : WriterPhase → List Bytes
  | idle => []
  | waiting data => [data]
  | sending data _ => [data]

/-- A call that has returned, with how much of its data was sent. -/
structure SendReturn (ι : Type*) where
  writer : ι
  data : Bytes
  sent : ℕ
  result : Except Str Bool
  deriving DecidableEq

/-- The threads, the mutex with its owner, and the bytes on the wire. The calls and their returns
are recorded. -/
structure StreamWriters (ι : Type*) where
  phase : ι → WriterPhase := fun _ => .idle
  writeMu : Option ι := none
  wire : Bytes := []
  called : List (ι × Bytes) := []
  returned : List (SendReturn ι) := []

namespace StreamWriters
variable {ι : Type*}

section Steps
variable [DecidableEq ι]

/-- A thread calls `send_all`. -/
def call (s : StreamWriters ι) (i : ι) (data : Bytes) : StreamWriters ι :=
  { s with
    phase := Function.update s.phase i (.waiting data)
    called := s.called ++ [(i, data)] }

/-- A thread takes the mutex. -/
def lock (s : StreamWriters ι) (i : ι) (data : Bytes) : StreamWriters ι :=
  { s with phase := Function.update s.phase i (.sending data 0), writeMu := some i }

/-- The loop goes on, with `bs` taken by `send`. -/
def more (s : StreamWriters ι) (i : ι) (data : Bytes) (sent : ℕ) (bs : Bytes) : StreamWriters ι :=
  { s with phase := Function.update s.phase i (.sending data sent), wire := s.wire ++ bs }

/-- `send_all` returns and gives the mutex back. -/
def finish (s : StreamWriters ι) (i : ι) (data : Bytes) (sent : ℕ) (result : Except Str Bool) :
    StreamWriters ι :=
  { s with
    phase := Function.update s.phase i .idle
    writeMu := none
    returned := s.returned ++ [⟨i, data, sent, result⟩] }

/-- A call of `send` in the loop. One that fails has put nothing on the wire. -/
def send (s : StreamWriters ι) (i : ι) (data : Bytes) (sent : ℕ) (r : SendResult) :
    StreamWriters ι :=
  match sendAll sent r with
  | .more sent' => s.more i data sent' (r.bytes data sent)
  | .failed e => s.finish i data sent (.error e)

/-- A step of one of the threads. -/
inductive Step : StreamWriters ι → StreamWriters ι → Prop
  | call {s : StreamWriters ι} (i : ι) (data : Bytes) : s.phase i = .idle → Step s (s.call i data)
  | lock {s : StreamWriters ι} (i : ι) (data : Bytes) : s.phase i = .waiting data →
      s.writeMu = none → Step s (s.lock i data)
  | send {s : StreamWriters ι} (i : ι) (data : Bytes) (sent : ℕ) (r : SendResult) :
      s.phase i = .sending data sent → sent < data.length → r.Possible (sendChunk data sent) →
      Step s (s.send i data sent r)
  | done {s : StreamWriters ι} (i : ι) (data : Bytes) (sent : ℕ) :
      s.phase i = .sending data sent → ¬ sent < data.length → Step s (s.finish i data sent (.ok true))

end Steps

/-- The bytes of the calls that have returned. -/
def written (s : StreamWriters ι) : Bytes := s.returned.flatMap fun r => r.data.take r.sent

/-- What the owner of the mutex has sent. -/
def inFlight (s : StreamWriters ι) : Bytes :=
  match s.writeMu with
  | none => []
  | some i =>
    match s.phase i with
    | .sending data sent => data.take sent
    | .idle | .waiting _ => []

/-- The wire carries the bytes of one call after the other, and then those of the owner. A call
that has returned was sent whole exactly when it returned `Ok`. The calls of each thread return in
the order in which they were made. -/
structure Serialized [DecidableEq ι] (s : StreamWriters ι) : Prop where
  owner : ∀ i data sent, s.phase i = .sending data sent →
    s.writeMu = some i ∧ sent ≤ data.length
  inside : ∀ i, s.writeMu = some i → ∃ data sent, s.phase i = .sending data sent
  wire : s.wire = s.written ++ s.inFlight
  whole : ∀ r ∈ s.returned, r.sent ≤ r.data.length ∧
    (r.result = .ok true ↔ r.sent = r.data.length)
  order : ∀ i, ofClient i s.called =
    ofClient i (s.returned.map fun r => (r.writer, r.data)) ++ (s.phase i).data

variable {s s' : StreamWriters ι} {i : ι} {data : Bytes} {sent : ℕ}

theorem inFlight_of_owner (howner : s.writeMu = some i) (hi : s.phase i = .sending data sent) :
    s.inFlight = data.take sent := by
  simp [inFlight, howner, hi]

theorem inFlight_of_none (h : s.writeMu = none) : s.inFlight = [] := by
  simp [inFlight, h]

/-- A call of `send` takes the next bytes, or none, and then the loop may end. -/
theorem sendAll_cases {r : SendResult} (hr : r.Possible (sendChunk data sent))
    (hsent : sent ≤ data.length) :
    (∃ sent', sendAll sent r = .more sent' ∧ sent' ≤ data.length ∧
      data.take sent ++ r.bytes data sent = data.take sent') ∨
    ∃ e, sendAll sent r = .failed e := by
  cases r with
  | error code =>
    by_cases hagain : code = wsaEWouldBlock ∨ code = wsaETimedOut
    · exact .inl ⟨sent, if_pos hagain, hsent, List.append_nil _⟩
    · exact .inr ⟨_, if_neg hagain⟩
  | sent n =>
    by_cases hn : n = 0
    · exact .inr ⟨_, if_pos hn⟩
    · have hchunk : n ≤ data.length - sent := le_trans hr (min_le_left _ _)
      exact .inl ⟨sent + n, if_neg hn, by omega, List.take_add.symm⟩

variable [DecidableEq ι]

theorem phase_call (s : StreamWriters ι) (i j : ι) (data : Bytes) :
    (s.call i data).phase j = if j = i then .waiting data else s.phase j :=
  Function.update_apply ..

theorem phase_lock (s : StreamWriters ι) (i j : ι) (data : Bytes) :
    (s.lock i data).phase j = if j = i then .sending data 0 else s.phase j :=
  Function.update_apply ..

theorem phase_more (s : StreamWriters ι) (i j : ι) (data bs : Bytes) (sent : ℕ) :
    (s.more i data sent bs).phase j = if j = i then .sending data sent else s.phase j :=
  Function.update_apply ..

theorem phase_finish (s : StreamWriters ι) (i j : ι) (data : Bytes) (sent : ℕ)
    (result : Except Str Bool) :
    (s.finish i data sent result).phase j = if j = i then .idle else s.phase j :=
  Function.update_apply ..

/-- Nobody is in the loop while the mutex is free. -/
theorem Serialized.phase_ne (h : Serialized s) (hfree : s.writeMu = none) :
    s.phase i ≠ .sending data sent := by
  intro hi
  have howner := (h.owner i data sent hi).1
  rw [hfree] at howner
  cases howner

/-- The owner of the mutex is the only thread in the loop. -/
theorem Serialized.unique (h : Serialized s) {j : ι} {data' : Bytes} {sent' : ℕ}
    (hi : s.phase i = .sending data sent) (hj : s.phase j = .sending data' sent') : j = i := by
  have howner := (h.owner i data sent hi).1
  rw [(h.owner j data' sent' hj).1] at howner
  exact Option.some.inj howner

theorem serialized_start : Serialized ({} : StreamWriters ι) where
  owner := nofun
  inside := nofun
  wire := rfl
  whole := nofun
  order := fun _ => rfl

/-- A call enters behind the mutex, and the owner of the mutex is another thread. -/
theorem Serialized.call (h : Serialized s) (hi : s.phase i = .idle) (data : Bytes) :
    Serialized (s.call i data) := by
  have hother : ∀ j data' sent', s.phase j = .sending data' sent' →
      (s.call i data).phase j = .sending data' sent' := by
    intro j data' sent' hj
    have hji : j ≠ i := by
      rintro rfl
      rw [hi] at hj
      cases hj
    rw [phase_call, if_neg hji, hj]
  refine ⟨fun j data' sent' hj => ?_, fun j hj => ?_, ?_, h.whole, fun j => ?_⟩
  · rw [phase_call] at hj
    split_ifs at hj
    exact h.owner j data' sent' hj
  · obtain ⟨data', sent', hphase⟩ := h.inside j hj
    exact ⟨data', sent', hother j data' sent' hphase⟩
  · refine h.wire.trans (congrArg _ ?_)
    cases hmu : s.writeMu with
    | none => rw [inFlight_of_none hmu, inFlight_of_none (s := s.call i data) hmu]
    | some j =>
      obtain ⟨data', sent', hphase⟩ := h.inside j hmu
      rw [inFlight_of_owner hmu hphase,
        inFlight_of_owner (s := s.call i data) hmu (hother j data' sent' hphase)]
  · have hj := h.order j
    rw [phase_call]
    by_cases hji : j = i
    · subst hji
      simpa [StreamWriters.call, hi, WriterPhase.data] using hj
    · simpa [StreamWriters.call, hji, Ne.symm hji] using hj

/-- A thread enters the loop. -/
theorem Serialized.lock (h : Serialized s) (hi : s.phase i = .waiting data)
    (hfree : s.writeMu = none) : Serialized (s.lock i data) := by
  have hphase : (s.lock i data).phase i = .sending data 0 := by rw [phase_lock, if_pos rfl]
  refine ⟨fun j data' sent' hj => ?_, fun j hj => ?_, ?_, h.whole, fun j => ?_⟩
  · rw [phase_lock] at hj
    split_ifs at hj with hji
    · obtain ⟨rfl, rfl⟩ := WriterPhase.sending.inj hj
      exact ⟨congrArg some hji.symm, Nat.zero_le _⟩
    · exact absurd hj (h.phase_ne hfree)
  · obtain rfl := Option.some.inj hj
    exact ⟨data, 0, hphase⟩
  · rw [inFlight_of_owner rfl hphase]
    exact h.wire.trans (congrArg _ (inFlight_of_none hfree))
  · have hj := h.order j
    rw [phase_lock]
    by_cases hji : j = i
    · subst hji
      simpa [StreamWriters.lock, hi, WriterPhase.data] using hj
    · simpa [StreamWriters.lock, hji] using hj

/-- The loop goes on with more of the data sent. -/
theorem Serialized.more (h : Serialized s) (hi : s.phase i = .sending data sent) {sent' : ℕ}
    {bs : Bytes} (hsent : sent' ≤ data.length) (hbs : data.take sent ++ bs = data.take sent') :
    Serialized (s.more i data sent' bs) := by
  have howner := (h.owner i data sent hi).1
  have hphase : (s.more i data sent' bs).phase i = .sending data sent' := by
    rw [phase_more, if_pos rfl]
  refine ⟨fun j data' sent'' hj => ?_, fun j hj => ?_, ?_, h.whole, fun j => ?_⟩
  · rw [phase_more] at hj
    split_ifs at hj with hji
    · obtain ⟨rfl, rfl⟩ := WriterPhase.sending.inj hj
      exact ⟨hji ▸ howner, hsent⟩
    · exact h.owner j data' sent'' hj
  · obtain rfl := Option.some.inj (howner.symm.trans hj)
    exact ⟨data, sent', hphase⟩
  · rw [inFlight_of_owner (s := s.more i data sent' bs) howner hphase, ← hbs, ← List.append_assoc]
    exact congrArg (· ++ bs) (h.wire.trans (congrArg _ (inFlight_of_owner howner hi)))
  · have hj := h.order j
    rw [phase_more]
    by_cases hji : j = i
    · subst hji
      simpa [StreamWriters.more, hi, WriterPhase.data] using hj
    · simpa [StreamWriters.more, hji] using hj

/-- A call returns with what it has sent. -/
theorem Serialized.finish (h : Serialized s) (hi : s.phase i = .sending data sent)
    {result : Except Str Bool} (hresult : result = .ok true ↔ sent = data.length) :
    Serialized (s.finish i data sent result) := by
  obtain ⟨howner, hle⟩ := h.owner i data sent hi
  refine ⟨fun j data' sent' hj => ?_, nofun, ?_, fun r hr => ?_, fun j => ?_⟩
  · rw [phase_finish] at hj
    split_ifs at hj with hji
    exact absurd (h.unique hi hj) hji
  · rw [inFlight_of_none rfl]
    simpa [StreamWriters.finish, written, inFlight_of_owner howner hi] using h.wire
  · rcases List.mem_append.mp hr with hold | hnew
    · exact h.whole r hold
    · obtain rfl := List.mem_singleton.mp hnew
      exact ⟨hle, hresult⟩
  · have hj := h.order j
    rw [phase_finish]
    by_cases hji : j = i
    · subst hji
      simpa [StreamWriters.finish, hi, WriterPhase.data] using hj
    · simpa [StreamWriters.finish, hji, Ne.symm hji] using hj

theorem Serialized.step (h : Serialized s) (hstep : Step s s') : Serialized s' := by
  cases hstep with
  | call i data hi => exact h.call hi data
  | lock i data hi hfree => exact h.lock hi hfree
  | send i data sent r hi hlt hr =>
    rcases sendAll_cases hr hlt.le with ⟨sent', hmore, hle, hbs⟩ | ⟨e, hfailed⟩
    · simp only [StreamWriters.send, hmore]
      exact h.more hi hle hbs
    · simp only [StreamWriters.send, hfailed]
      exact h.finish hi (by simp [hlt.ne])
  | done i data sent hi hall =>
    have hle := (h.owner i data sent hi).2
    exact h.finish hi (by simp only [true_iff]; omega)

theorem serialized_run (hrun : ReflTransGen Step {} s) : Serialized s := by
  induction hrun with
  | refl => exact serialized_start
  | tail _ hstep ih => exact ih.step hstep

/-- However the threads take their turns and however `send` splits the data, the bytes of two calls
never mix on the wire. -/
theorem sends_serialized (hrun : ReflTransGen Step {} s) : Serialized s := serialized_run hrun

/-- Two threads send a byte each. The one that takes the mutex first is told to try again, and the
other, whose sending fails, waits for it. -/
theorem sends_serialized_two : ∃ s : StreamWriters Bool, s.wire = [1] ∧
    s.called.map Prod.fst = [false, true] ∧ s.returned.map (·.writer) = [true, false] ∧
    Serialized s := by
  have hrun := ((((((((ReflTransGen.refl : ReflTransGen Step ({} : StreamWriters Bool) _)
    |>.tail (.call false [0] rfl))
    |>.tail (.call true [1] rfl))
    |>.tail (.lock true [1] rfl rfl))
    |>.tail (.send true [1] 0 (.error wsaEWouldBlock) rfl (by decide) (by decide)))
    |>.tail (.send true [1] 0 (.sent 1) rfl (by decide) (by decide)))
    |>.tail (.done true [1] 1 rfl (by decide)))
    |>.tail (.lock false [0] rfl rfl))
    |>.tail (.send false [0] 0 (.error 10054) rfl (by decide) (by decide))
  exact ⟨_, rfl, rfl, rfl, sends_serialized hrun⟩

end StreamWriters
end ServingObservatory
