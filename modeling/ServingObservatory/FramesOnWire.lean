import ServingObservatory.StreamWriters

/-!
# Frames that several threads write

The bytes that the writers of a stream have sent arrive at the loop of the server while the
writers go on. Every byte on the wire belongs to a frame that was sent whole or to the frame of the
owner of the mutex. As long as the loop has dropped no bytes, it has therefore read whole frames,
in the order in which the mutex was given, and a part of the next.
-/
namespace ServingObservatory
open Interleaving Relation

/-- More bytes follow those that are on their way. -/
def ClientLoop.append (s : ClientLoop) (rest : Bytes) : ClientLoop :=
  { s with unread := s.unread ++ rest }

section Append
variable {s s' : ClientLoop}

@[simp] theorem ClientLoop.append_append (s : ClientLoop) (bs rest : Bytes) :
    (s.append bs).append rest = s.append (bs ++ rest) := by
  simp [append]

/-- A call that does not report the end of the stream reads the same when more bytes follow. -/
theorem deliver_append {unread rest : Bytes} {want : ℕ} {d : Delivery} {r : RecvResult}
    (h : deliver unread want d = some (r, rest)) (hd : d ≠ .closed) (more : Bytes) :
    deliver (unread ++ more) want d = some (r, rest ++ more) := by
  cases d with
  | data n =>
    simp only [deliver] at h
    split_ifs at h with hn
    obtain ⟨rfl, rfl⟩ := Prod.mk.inj (Option.some.inj h)
    have hlen : n ≤ (unread ++ more).length := hn.2.2.trans (by simp)
    rw [deliver, if_pos ⟨hn.1, hn.2.1, hlen⟩, List.take_append_of_le_length hn.2.2,
      List.drop_append_of_le_length hn.2.2]
  | timeout =>
    obtain ⟨rfl, rfl⟩ := Prod.mk.inj (Option.some.inj h)
    rfl
  | closed => exact absurd rfl hd

/-- What the loop makes of the bytes that it got. -/
theorem ClientLoop.resume_append (s : ClientLoop) (rest : Bytes) (r : RecvResult) (stop : Bool) :
    (s.append rest).resume r stop = (s.resume r stop).append rest := by
  obtain ⟨position, unread, consumed, dispatched⟩ := s
  cases position with
  | ended => rfl
  | probing =>
    simp only [resume, append]
    cases recvSome r <;> rfl
  | reading reader =>
    simp only [resume, append]
    rcases recvFrame reader r with reader' | (e | full | full)
    · rfl
    · rfl
    · rfl
    · simp only [handle]
      split <;> rfl

theorem ClientLoop.resume_stream (s : ClientLoop) (r : RecvResult) (stop : Bool) :
    (s.resume r stop).consumed = s.consumed ∧ (s.resume r stop).unread = s.unread := by
  obtain ⟨position, unread, consumed, dispatched⟩ := s
  cases position with
  | ended => exact ⟨rfl, rfl⟩
  | probing =>
    simp only [resume]
    cases recvSome r <;> exact ⟨rfl, rfl⟩
  | reading reader =>
    simp only [resume]
    rcases recvFrame reader r with reader' | (e | full | full)
    · exact ⟨rfl, rfl⟩
    · exact ⟨rfl, rfl⟩
    · exact ⟨rfl, rfl⟩
    · simp only [handle]
      split <;> exact ⟨rfl, rfl⟩

/-- A call takes its bytes from the front of those that are on their way. -/
theorem ClientLoop.stream_of_step {d : Delivery} {stop : Bool} (h : s.step d stop = some s') :
    s'.consumed ++ s'.unread = s.consumed ++ s.unread := by
  simp only [step, Option.bind_eq_bind, Option.bind_eq_some_iff, Option.pure_def, Option.some.injEq,
    Prod.exists] at h
  obtain ⟨n, hwant, r, left, hdeliver, rfl⟩ := h
  obtain ⟨hunread, -, -⟩ := deliver_eq_some hdeliver
  obtain ⟨hconsumed, hleft⟩ :=
    resume_stream { s with unread := left, consumed := s.consumed ++ r.bytes } r stop
  rw [hconsumed, hleft, hunread, List.append_assoc]

theorem ClientLoop.step_append {d : Delivery} {stop : Bool} (h : s.step d stop = some s')
    (hd : d ≠ .closed) (rest : Bytes) : (s.append rest).step d stop = some (s'.append rest) := by
  simp only [step, Option.bind_eq_bind, Option.bind_eq_some_iff, Option.pure_def, Option.some.injEq,
    Prod.exists] at h ⊢
  obtain ⟨n, hwant, r, left, hdeliver, rfl⟩ := h
  exact ⟨n, hwant, r, left ++ rest, deliver_append hdeliver hd rest,
    resume_append { s with unread := left, consumed := s.consumed ++ r.bytes } rest r stop⟩

/-- A call that returns no bytes moves the loop alone. -/
theorem ClientLoop.resume_empty (s : ClientLoop) {r : RecvResult} (hr : r = .timeout ∨ r = .closed)
    (stop : Bool) : ∃ position, s.resume r stop = { s with position := position } := by
  obtain ⟨position, unread, consumed, dispatched⟩ := s
  cases position with
  | ended => exact ⟨_, rfl⟩
  | probing => rcases hr with rfl | rfl <;> exact ⟨_, rfl⟩
  | reading reader => rcases hr with rfl | rfl <;> cases reader <;> exact ⟨_, rfl⟩

/-- At the end of the stream the loop ends, or probes first. -/
theorem ClientLoop.step_closed {stop : Bool} (h : s.step .closed stop = some s') :
    s.unread = [] ∧ ∃ position, (position = .ended ∨ position = .probing) ∧
      s' = { s with position := position } := by
  simp only [step, Option.bind_eq_bind, Option.bind_eq_some_iff, Option.pure_def, Option.some.injEq,
    Prod.exists] at h
  obtain ⟨n, hwant, r, rest, hdeliver, rfl⟩ := h
  simp only [deliver] at hdeliver
  split_ifs at hdeliver with hunread
  obtain ⟨rfl, rfl⟩ := Prod.mk.inj (Option.some.inj hdeliver)
  refine ⟨hunread, ?_⟩
  obtain ⟨position, unread, consumed, dispatched⟩ := s
  obtain rfl : unread = [] := hunread
  cases position with
  | ended => cases hwant
  | probing => exact ⟨_, .inl rfl, by simp [resume, recvSome, RecvResult.bytes]⟩
  | reading reader =>
    cases reader with
    | body hdr out => exact ⟨_, .inl rfl, by simp [resume, recvFrame, recvExact, RecvResult.bytes]⟩
    | header out =>
      refine ⟨if stop then .ended else .probing, ?_,
        by simp [resume, recvFrame, recvExact, RecvResult.bytes]⟩
      cases stop
      · exact .inr rfl
      · exact .inl rfl

/-- A probe ends the loop where no bytes are on their way. -/
theorem ClientLoop.step_probing {d : Delivery} {stop : Bool} (h : s.step d stop = some s')
    (hpos : s.position = .probing) (hunread : s.unread = []) :
    s' = { s with position := .ended } := by
  cases ClientLoop.called_of_step h with
  | hungUp => rfl
  | probed n bs rest _ hbs hbytes =>
    rw [hunread] at hbytes
    exact absurd (List.append_eq_nil_iff.mp hbytes.symm).1 hbs
  | empty reader _ _ hreading | data reader _ _ _ hreading =>
    rw [hpos] at hreading
    cases hreading

end Append

/-- The dispatched frames were read, and a part of the next. -/
def PartRead (frames : List Bytes) (s : ClientLoop) : Prop :=
  ∃ part rest, frames = s.dispatched ++ rest ∧ s.consumed = s.dispatched.flatten ++ part ∧
    (part = [] ∨ ∃ f after, rest = f :: after ∧ part.length < f.length)

section Parts
variable {frames : List Bytes} {s s' : ClientLoop} {d : Delivery} {stop : Bool}

theorem PartRead.isPrefix (h : PartRead frames s) : s.dispatched <+: frames := by
  obtain ⟨part, rest, hframes, -⟩ := h
  exact ⟨rest, hframes.symm⟩

theorem PartRead.append (h : PartRead frames s) (f : Bytes) : PartRead (frames ++ [f]) s := by
  obtain ⟨part, rest, hframes, hconsumed, hpart⟩ := h
  refine ⟨part, rest ++ [f], by rw [hframes, List.append_assoc], hconsumed, ?_⟩
  rcases hpart with hnil | ⟨g, after, rfl, hlt⟩
  · exact .inl hnil
  · exact .inr ⟨g, after ++ [f], rfl, hlt⟩

theorem PartRead.of_append {rest : Bytes} (h : PartRead frames (s.append rest)) :
    PartRead frames s := h

/-- When the bytes of all frames were read, all frames were dispatched. -/
theorem PartRead.complete (h : PartRead frames s) (hframes : ∀ f ∈ frames, Framed f)
    (hall : s.consumed = frames.flatten) : s.dispatched = frames := by
  obtain ⟨part, rest, hsplit, hconsumed, hpart⟩ := h
  rw [hconsumed, hsplit, List.flatten_append, List.append_cancel_left_eq] at hall
  have hnil : rest = [] := by
    rcases hpart with rfl | ⟨f, after, rfl, hlt⟩
    · exact nil_of_flatten_eq_nil (fun f hf => hframes f (by simp [hsplit, hf])) hall.symm
    · rw [hall, List.flatten_cons, List.length_append] at hlt
      omega
  rw [hsplit, hnil, List.append_nil]

theorem held_lt {f : Bytes} (hf : Framed f) {reader : FrameReader} (h : MidFrame f reader) :
    reader.held.length < f.length := by
  have hfit := held_add_want_le hf h
  have hwant : 0 < reader.want := by
    cases reader with
    | header out =>
      have hlt := h.2
      simp only [FrameReader.want, recvExactWant, recvBuffer]
      omega
    | body hdr out =>
      have hlt := h.2.2
      simp only [FrameReader.want, recvExactWant, recvBuffer]
      omega
  omega

theorem InStep.partRead (hframes : ∀ f ∈ frames, Framed f) (h : InStep frames s) :
    PartRead frames s := by
  obtain ⟨rest, hrest, hinside⟩ := h.inside
  refine ⟨s.held, rest, hrest, h.consumed, ?_⟩
  cases hpos : s.position with
  | probing | ended => exact .inl (by simp [ClientLoop.held, hpos])
  | reading reader =>
    simp only [ClientLoop.held, hpos]
    rcases hinside reader hpos with ⟨-, rfl⟩ | ⟨f, after, hcons, hin⟩
    · exact .inl rfl
    · exact .inr ⟨f, after, hcons, held_lt (hframes f (by simp [hrest, hcons])) hin⟩

/-- Bytes of the next frame are a part of it, or its last. -/
theorem InStep.partRead_data (hframes : ∀ f ∈ frames, WellFormed f) (h : InStep frames s)
    {reader : FrameReader} (hpos : s.position = .reading reader) {bs rest : Bytes}
    (hbs : bs ≠ []) (hwant : bs.length ≤ reader.want) (hunread : s.unread = bs ++ rest) :
    PartRead frames
      ({ s with unread := rest, consumed := s.consumed ++ bs }.resume (.data bs) stop) := by
  have hframed : ∀ f ∈ frames, Framed f := fun f hf => (hframes f hf).framed
  rcases h.resume_data hframed hpos hbs hwant hunread with
    ⟨reader', hresume, hin⟩ | ⟨f, after, hresume, hremaining, hall⟩ | hresume
  · rw [hresume]
    exact hin.partRead hframed
  · obtain ⟨frame, hdecode⟩ := hframes f (by simp [hremaining])
    rw [hresume, ClientLoop.handle, hdecode]
    exact ⟨[], after, by simp [hremaining], by simp [h.consumed, ← hall], .inl rfl⟩
  · obtain ⟨remaining, hremaining, hinside⟩ := h.inside
    rw [hresume]
    refine ⟨s.held ++ bs, remaining, hremaining, by simp [h.consumed], .inr ?_⟩
    rcases hinside reader hpos with ⟨rfl, rfl⟩ | ⟨f, after, rfl, hin⟩
    · have hflatten := h.flatten_rest hremaining
      simp [hunread, hbs] at hflatten
    · refine ⟨f, after, rfl, ?_⟩
      have hf := hframed f (by simp [hremaining])
      have hlt := held_lt hf hin
      have hfit := held_add_want_le hf hin
      have hheld : s.held = reader.held := by rw [ClientLoop.held, hpos]
      rw [hheld, List.length_append]
      -- what completes the frame does not end the loop without dispatching it
      by_contra hge
      have hflatten := h.flatten_rest hremaining
      rw [hheld, hunread, List.flatten_cons] at hflatten
      have hpre := held_append_prefix hf hin hwant hflatten
      have hall : reader.held ++ bs = f := hpre.eq_of_length_le (by
        rw [List.length_append]
        omega)
      obtain ⟨frame, hdecode⟩ := hframes f (by simp [hremaining])
      rcases recvFrame_data hf hin hwant (hall ▸ List.prefix_rfl) with
        ⟨reader', -, hin', hheld'⟩ | ⟨hrecv, -⟩ | ⟨e, hrecv⟩
      · have hlt' := held_lt hf hin'
        rw [hheld', hall] at hlt'
        exact hlt'.false
      · simp [ClientLoop.resume, hpos, hrecv, ClientLoop.handle, hdecode] at hresume
      · cases reader with
        | header out =>
          have hmin := hf.min
          have hout := hin.2
          simp only [FrameReader.want, recvExactWant] at hwant
          simp only [FrameReader.held, ← hall, List.length_append] at hmin
          omega
        | body hdr out =>
          simp only [recvFrame, recvExact] at hrecv
          split_ifs at hrecv
          cases hrecv

/-- A call that drops no bytes leaves the loop with whole frames and a part of the next. -/
theorem InStep.partRead_step (hframes : ∀ f ∈ frames, WellFormed f) (h : InStep frames s)
    (hstep : s.step d stop = some s') (hdrops : ¬ Drops s d stop) : PartRead frames s' := by
  have hframed : ∀ f ∈ frames, Framed f := fun f hf => (hframes f hf).framed
  have hpart := h.partRead hframed
  cases ClientLoop.called_of_step hstep with
  | hungUp => exact hpart
  | probed n bs rest hpos => exact absurd (by simp [Drops, hpos]) hdrops
  | empty reader _ r hpos hr =>
    have hempty : r = .timeout ∨ r = .closed := hr.imp And.right fun hclosed => hclosed.2.1
    obtain ⟨position, hresume⟩ := s.resume_empty hempty stop
    rw [hresume]
    exact hpart
  | data reader n bs rest hpos hbs hlen hunread =>
    exact h.partRead_data hframes hpos hbs hlen hunread

end Parts

namespace StreamWriters
variable {ι : Type*} {s s' : StreamWriters ι}

/-- The data of the owner of the mutex. -/
def current (s : StreamWriters ι) : List Bytes :=
  match s.writeMu with
  | none => []
  | some i => (s.phase i).data

/-- What was given the mutex, in order. -/
def frames (s : StreamWriters ι) : List Bytes := s.returned.map (·.data) ++ s.current

theorem current_of_none (h : s.writeMu = none) : s.current = [] := by
  simp [current, h]

theorem current_of_owner {i : ι} {data : Bytes} {sent : ℕ} (howner : s.writeMu = some i)
    (hi : s.phase i = .sending data sent) : s.current = [data] := by
  simp [current, howner, hi, WriterPhase.data]

theorem current_congr (hmu : s'.writeMu = s.writeMu)
    (hphase : ∀ i, s.writeMu = some i → (s'.phase i).data = (s.phase i).data) :
    s'.current = s.current := by
  rw [current, current, hmu]
  cases howner : s.writeMu with
  | none => rfl
  | some i => exact hphase i howner

variable [DecidableEq ι]

/-- What was given the mutex was sent with a call. -/
theorem Serialized.mem_called (h : Serialized s) {data : Bytes} (hdata : data ∈ s.frames) :
    ∃ i, (i, data) ∈ s.called := by
  rcases List.mem_append.mp hdata with hreturned | hcurrent
  · obtain ⟨r, hr, rfl⟩ := List.mem_map.mp hreturned
    refine ⟨r.writer, mem_ofClient.mp ?_⟩
    rw [h.order]
    exact List.mem_append_left _ (mem_ofClient.mpr (List.mem_map.mpr ⟨r, hr, rfl⟩))
  · cases hmu : s.writeMu with
    | none => simp [current_of_none hmu] at hcurrent
    | some i =>
      obtain ⟨data', sent, hi⟩ := h.inside i hmu
      rw [current_of_owner hmu hi] at hcurrent
      obtain rfl := List.mem_singleton.mp hcurrent
      refine ⟨i, mem_ofClient.mp ?_⟩
      rw [h.order, hi]
      exact List.mem_append_right _ (by simp [WriterPhase.data])

/-- If no call has failed, the wire carries the frames up to the rest of the owner's. -/
theorem Serialized.wire_append (h : Serialized s) (hok : ∀ r ∈ s.returned, r.result = .ok true) :
    ∃ rest, s.wire ++ rest = s.frames.flatten ∧ (s.writeMu = none → rest = []) := by
  have hwritten : s.written = (s.returned.map (·.data)).flatten := by
    rw [written, List.flatMap_def]
    refine congrArg _ (List.map_congr_left fun r hr => ?_)
    rw [(h.whole r hr).2.mp (hok r hr), List.take_length]
  rw [h.wire, hwritten, frames, List.flatten_append]
  cases hmu : s.writeMu with
  | none => exact ⟨[], by simp [inFlight_of_none hmu, current_of_none hmu], fun _ => rfl⟩
  | some i =>
    obtain ⟨data, sent, hi⟩ := h.inside i hmu
    refine ⟨data.drop sent, ?_, fun hnone => absurd hnone (Option.some_ne_none i)⟩
    simp [inFlight_of_owner hmu hi, current_of_owner hmu hi]

/-- A step adds to the wire, and may give the mutex to one more call. -/
theorem Serialized.grows (h : Serialized s) (hstep : Step s s') :
    (∃ bs, s'.wire = s.wire ++ bs) ∧ (∃ more, s'.returned = s.returned ++ more) ∧
      (s'.frames = s.frames ∨ ∃ data, s'.frames = s.frames ++ [data]) ∧ s.called <+: s'.called := by
  have hmore : ∀ {i : ι} {data : Bytes} {sent sent' : ℕ} (bs : Bytes),
      s.phase i = .sending data sent → (s.more i data sent' bs).frames = s.frames := by
    intro i data sent sent' bs hi
    have howner := (h.owner i data sent hi).1
    have hphase : (s.more i data sent' bs).phase i = .sending data sent' := by
      rw [phase_more, if_pos rfl]
    rw [frames, frames, current_of_owner howner hi,
      current_of_owner (s := s.more i data sent' bs) howner hphase]
    rfl
  have hfinish : ∀ {i : ι} {data : Bytes} {sent : ℕ} (result : Except Str Bool),
      s.phase i = .sending data sent → (s.finish i data sent result).frames = s.frames := by
    intro i data sent result hi
    rw [frames, frames, current_of_owner (h.owner i data sent hi).1 hi, current_of_none rfl]
    simp [StreamWriters.finish]
  cases hstep with
  | call i data hi =>
    refine ⟨⟨[], (List.append_nil _).symm⟩, ⟨[], (List.append_nil _).symm⟩, .inl ?_,
      List.prefix_append _ _⟩
    refine congrArg (_ ++ ·) (current_congr rfl fun j hj => ?_)
    obtain ⟨data', sent', hphase⟩ := h.inside j hj
    rw [phase_call, if_neg]
    rintro rfl
    rw [hi] at hphase
    cases hphase
  | lock i data hi hfree =>
    refine ⟨⟨[], (List.append_nil _).symm⟩, ⟨[], (List.append_nil _).symm⟩, .inr ⟨data, ?_⟩,
      List.prefix_rfl⟩
    have hphase : (s.lock i data).phase i = .sending data 0 := by rw [phase_lock, if_pos rfl]
    rw [frames, frames, current_of_none hfree, current_of_owner rfl hphase, List.append_nil]
    rfl
  | send i data sent r hi hlt hr =>
    rcases sendAll_cases hr hlt.le with ⟨sent', hgoes, -, -⟩ | ⟨e, hfailed⟩
    · simp only [StreamWriters.send, hgoes]
      exact ⟨⟨_, rfl⟩, ⟨[], (List.append_nil _).symm⟩, .inl (hmore _ hi), List.prefix_rfl⟩
    · simp only [StreamWriters.send, hfailed]
      exact ⟨⟨[], (List.append_nil _).symm⟩, ⟨_, rfl⟩, .inl (hfinish _ hi), List.prefix_rfl⟩
  | done i data sent hi hall =>
    exact ⟨⟨[], (List.append_nil _).symm⟩, ⟨_, rfl⟩, .inl (hfinish _ hi), List.prefix_rfl⟩

end StreamWriters

/-- The writers of a stream and the loop that reads it. Once the sending end is `shut`, `send` takes
no bytes. Whether a call of `recv` has dropped bytes is recorded. -/
structure WrittenStream (ι : Type*) where
  writers : StreamWriters ι := {}
  loop : ClientLoop := { unread := [] }
  shut : Bool := false
  dropped : Bool := false

namespace WrittenStream
variable {ι : Type*} [DecidableEq ι]

/-- A step of a writer, whose bytes are on their way to the loop, the shutdown of the sending end,
or a call of `recv`. The end of the stream is read after a shutdown alone. -/
inductive Step : WrittenStream ι → WrittenStream ι → Prop
  | write {s : WrittenStream ι} {w : StreamWriters ι} : s.writers.Step w →
      (s.shut = true → w.wire = s.writers.wire) →
      Step s
        { s with writers := w, loop := s.loop.append (w.wire.drop s.writers.wire.length) }
  | shutdown {s : WrittenStream ι} : Step s { s with shut := true }
  | read {s : WrittenStream ι} {loop : ClientLoop} (d : Delivery) (stop : Bool) :
      (d = .closed → s.shut = true) → s.loop.step d stop = some loop →
      Step s { s with loop := loop, dropped := s.dropped || decide (Drops s.loop d stop) }

/-- The loop is in step with the frames that were given the mutex, until it has read the end of
the stream. -/
structure ReadInStep (s : WrittenStream ι) : Prop where
  serialized : s.writers.Serialized
  arrived : s.loop.consumed ++ s.loop.unread = s.writers.wire
  part : PartRead s.writers.frames s.loop
  inStep : s.loop.position ≠ .ended →
    (∃ rest, InStep s.writers.frames (s.loop.append rest)) ∨
      s.shut = true ∧ s.loop.unread = [] ∧ s.loop.position = .probing

/-- What the results depend on: no call has failed, and each has sent a frame. -/
structure SendsFrames (w : StreamWriters ι) : Prop where
  ok : ∀ r ∈ w.returned, r.result = .ok true
  wellFormed : ∀ c ∈ w.called, WellFormed c.2

variable {s s' : WrittenStream ι}

theorem SendsFrames.frames {w : StreamWriters ι} (h : SendsFrames w) (hw : w.Serialized) :
    ∀ f ∈ w.frames, WellFormed f := by
  intro f hf
  obtain ⟨i, hcalled⟩ := hw.mem_called hf
  exact h.wellFormed _ hcalled

/-- A writer goes on. -/
theorem ReadInStep.write (h : ReadInStep s) {w : StreamWriters ι} (hstep : s.writers.Step w)
    (hshut : s.shut = true → w.wire = s.writers.wire) (hw : SendsFrames w) :
    ReadInStep
      { s with writers := w, loop := s.loop.append (w.wire.drop s.writers.wire.length) } := by
  have hserialized := h.serialized.step hstep
  obtain ⟨⟨bs, hwire⟩, -, hframes, -⟩ := h.serialized.grows hstep
  obtain ⟨rest', hrest', -⟩ := hserialized.wire_append hw.ok
  have hbs : w.wire.drop s.writers.wire.length = bs := by rw [hwire, List.drop_left]
  have harrived : s.loop.consumed ++ (s.loop.unread ++ bs) = w.wire := by
    rw [← List.append_assoc, h.arrived, hwire]
  have hpart : PartRead w.frames s.loop := by
    rcases hframes with hsame | ⟨data, hmore⟩
    · exact hsame ▸ h.part
    · exact hmore ▸ h.part.append data
  rw [hbs]
  refine ⟨hserialized, harrived, hpart, fun hend => ?_⟩
  rcases h.inStep hend with ⟨rest, hin⟩ | ⟨hended, hunread, hprobing⟩
  · refine .inl ⟨rest', ?_⟩
    have hstream : s.loop.consumed ++ (s.loop.unread ++ rest) = s.writers.frames.flatten :=
      hin.stream
    rcases hframes with hsame | ⟨data, hmore⟩
    · have hrest : bs ++ rest' = rest := by
        simpa only [hsame, ← hstream, ← harrived, List.append_assoc, List.append_cancel_left_eq]
          using hrest'
      rw [ClientLoop.append_append, hrest, hsame]
      exact hin
    · have hrest : bs ++ rest' = rest ++ data := by
        simpa only [hmore, ← hstream, ← harrived, List.append_assoc, List.append_cancel_left_eq,
          List.flatten_append, List.flatten_singleton] using hrest'
      rw [ClientLoop.append_append, hrest, ← ClientLoop.append_append, hmore]
      exact hin.append data
  · have hnone : bs = [] := by simpa [hshut hended] using hwire
    exact .inr ⟨hended, by simp [ClientLoop.append, hunread, hnone], hprobing⟩

/-- The server reads. -/
theorem ReadInStep.read (h : ReadInStep s) {d : Delivery} {stop : Bool} {loop : ClientLoop}
    (hclosed : d = .closed → s.shut = true) (hdrops : ¬ Drops s.loop d stop)
    (hstep : s.loop.step d stop = some loop) (hw : SendsFrames s.writers) (dropped : Bool) :
    ReadInStep { s with loop := loop, dropped := dropped } := by
  have hframes := hw.frames h.serialized
  have harrived := (ClientLoop.stream_of_step hstep).trans h.arrived
  rcases h.inStep (ClientLoop.not_ended_of_step hstep) with ⟨rest, hin⟩ | ⟨-, hunread, hprobing⟩
  · by_cases hd : d = .closed
    · subst hd
      obtain ⟨hunread, position, hposition, rfl⟩ := ClientLoop.step_closed hstep
      refine ⟨h.serialized, harrived, h.part, fun hend => .inr ⟨hclosed rfl, hunread, ?_⟩⟩
      exact hposition.resolve_left hend
    · have hmore := ClientLoop.step_append hstep hd rest
      have hpart := (hin.partRead_step hframes hmore hdrops).of_append
      refine ⟨h.serialized, harrived, hpart, fun hend => .inl ?_⟩
      exact ⟨rest, hin.step (fun f hf => (hframes f hf).framed) hmore hdrops hend⟩
  · obtain rfl := ClientLoop.step_probing hstep hprobing hunread
    exact ⟨h.serialized, harrived, h.part, fun hend => absurd rfl hend⟩

theorem serialized_run (hrun : ReflTransGen Step ({} : WrittenStream ι) s) :
    s.writers.Serialized := by
  induction hrun with
  | refl => exact StreamWriters.serialized_start
  | tail _ hstep ih =>
    cases hstep with
    | write hw => exact ih.step hw
    | shutdown | read => exact ih

/-- What was sent so far was sent before. -/
theorem SendsFrames.of_step {w w' : StreamWriters ι} (h : SendsFrames w') (hw : w.Serialized)
    (hstep : w.Step w') : SendsFrames w := by
  obtain ⟨-, ⟨more, hreturned⟩, -, hcalled⟩ := hw.grows hstep
  exact ⟨fun r hr => h.ok r (by simp [hreturned, hr]), fun c hc => h.wellFormed c (hcalled.subset hc)⟩

theorem readInStep_run (hrun : ReflTransGen Step ({} : WrittenStream ι) s)
    (hw : SendsFrames s.writers) (hkept : s.dropped = false) : ReadInStep s := by
  induction hrun with
  | refl =>
    exact ⟨StreamWriters.serialized_start, rfl, ⟨[], [], rfl, rfl, .inl rfl⟩,
      fun _ => .inl ⟨[], inStep_start []⟩⟩
  | tail hbefore hstep ih =>
    cases hstep with
    | write hwrite hshut =>
      exact (ih (hw.of_step (serialized_run hbefore) hwrite) hkept).write hwrite hshut hw
    | shutdown =>
      have h := ih hw hkept
      exact ⟨h.serialized, h.arrived, h.part, fun hend =>
        (h.inStep hend).imp id fun hlast => ⟨rfl, hlast.2⟩⟩
    | read d stop hclosed hloop =>
      obtain ⟨hbefore, hdrops⟩ := Bool.or_eq_false_iff.mp hkept
      exact (ih hw hbefore).read hclosed (of_decide_eq_false hdrops) hloop hw _

/-- Where no owner is left and all bytes were read, all frames were dispatched. -/
theorem ReadInStep.complete (h : ReadInStep s) (hw : SendsFrames s.writers)
    (hfree : s.writers.writeMu = none) (hunread : s.loop.unread = []) :
    s.loop.dispatched = s.writers.frames := by
  obtain ⟨rest, hwire, hnil⟩ := h.serialized.wire_append hw.ok
  refine h.part.complete (fun f hf => (hw.frames h.serialized f hf).framed) ?_
  rw [← hwire, hnil hfree, ← h.arrived, hunread, List.append_nil, List.append_nil]

/-- Threads send frames on one stream, in any order of steps and split in any way, and may shut it
down. As long as no call of `recv` has dropped bytes, the server has dispatched a first part of
these frames, each of them whole, in the order in which the mutex was given and each thread's in its
own order. Once all bytes are read, no frame is missing. -/
theorem frames_read_whole (hrun : ReflTransGen Step ({} : WrittenStream ι) s)
    (hw : SendsFrames s.writers) (hkept : s.dropped = false) :
    s.loop.dispatched <+: s.writers.frames ∧
      (∀ i, ofClient i (s.writers.returned.map fun r => (r.writer, r.data)) <+:
        ofClient i s.writers.called) ∧
      (s.writers.writeMu = none → s.loop.unread = [] →
        s.loop.dispatched = s.writers.returned.map (·.data)) := by
  have h := readInStep_run hrun hw hkept
  refine ⟨h.part.isPrefix, fun i => ?_, fun hfree hunread => ?_⟩
  · rw [h.serialized.order i]
    exact List.prefix_append _ _
  · rw [h.complete hw hfree hunread, StreamWriters.frames, StreamWriters.current_of_none hfree,
      List.append_nil]

/-- The loop at the end of a ping, of which it had read the length. -/
theorem step_pingFrame : ClientLoop.step
    { position := .reading (.body (pingFrame.take 4) []), unread := pingFrame.drop 4,
      consumed := pingFrame.take 4 } (.data 8) false =
    some { unread := [], consumed := pingFrame, dispatched := [pingFrame] } := by
  decide +kernel

/-- One thread waits while the other sends a ping in two parts, and then shuts the stream down. The
server reads the length in between, and the rest and the end of the stream afterwards. -/
theorem frames_read_whole_ping : ∃ s : WrittenStream Bool, s.writers.called.length = 2 ∧
    s.loop.position = .ended ∧ s.loop.dispatched = [pingFrame] := by
  have hrun := (((((((((((ReflTransGen.refl : ReflTransGen Step ({} : WrittenStream Bool) _)
    |>.tail (.write (.call false pingFrame rfl) nofun))
    |>.tail (.write (.call true pingFrame rfl) nofun))
    |>.tail (.write (.lock true pingFrame rfl rfl) nofun))
    |>.tail (.write (.send true pingFrame 0 (.sent 5) rfl (by decide) (by decide)) nofun))
    |>.tail (.read (.data 4) false nofun rfl))
    |>.tail (.write (.send true pingFrame 5 (.sent 7) rfl (by decide) (by decide)) nofun))
    |>.tail (.write (.done true pingFrame 12 rfl (by decide)) nofun))
    |>.tail (.read (.data 8) false nofun step_pingFrame))
    |>.tail .shutdown)
    |>.tail (.read .closed false (fun _ => rfl) rfl))
    |>.tail (.read .closed false (fun _ => rfl) rfl)
  refine ⟨_, rfl, rfl, (frames_read_whole hrun ⟨?_, fun c hc => ?_⟩ (by decide)).2.2 rfl rfl⟩
  · intro r hr
    exact List.mem_singleton.mp hr ▸ rfl
  · have hping : c.2 ∈ [pingFrame] := by
      rcases List.mem_pair.mp hc with rfl | rfl <;> exact List.mem_singleton_self _
    exact wellFormed_pingFrame c.2 hping

end WrittenStream
end ServingObservatory
