import ServingObservatory.FrameReading

/-!
# The loop that serves a client

The loop reads frame after frame and hands each to the dispatch. Where no frame has come it
probes the connection with a read of one byte, and goes on reading frames if there was one.
That byte is lost, and so is the part of a length that a timeout has cut off. Without such a
loss the bytes read are always those of the frames dispatched and of the frame being read.
-/
namespace ServingObservatory

/-- Where the loop is: reading a frame, probing, or left. -/
inductive LoopPosition
  | reading (reader : FrameReader)
  | probing
  | ended
  deriving DecidableEq

/-- The connection of a client: the bytes that were not read yet, those that were, and the
frames handed to the dispatch. -/
structure ClientLoop where
  position : LoopPosition := .reading (.header [])
  unread : Bytes
  consumed : Bytes := []
  dispatched : List Bytes := []
  deriving DecidableEq

namespace ClientLoop

/-- A frame that was read. A malformed one and `BYE` leave the loop. -/
def handle (s : ClientLoop) (full : Bytes) : ClientLoop :=
  match Frame.decode full with
  | some (.ok f) =>
    { s with
      dispatched := s.dispatched ++ [full]
      position := if f.type = .bye then .ended else .reading (.header []) }
  | _ => { s with position := .ended }

/-- The loop after a call of `recv` that has taken its bytes; `stop` is the request to stop
as the loop sees it. -/
def resume (s : ClientLoop) (r : RecvResult) (stop : Bool) : ClientLoop :=
  match s.position with
  | .ended => s
  | .probing =>
    match recvSome r with
    | some _ => { s with position := .reading (.header []) }
    | none => { s with position := .ended }
  | .reading reader =>
    match recvFrame reader r with
    | .pending reader => { s with position := .reading reader }
    | .done (.error _) => { s with position := .ended }
    | .done (.ok none) => { s with position := if stop then .ended else .probing }
    | .done (.ok (some full)) => s.handle full

/-- How much the next call of `recv` asks for; no call is made after the loop. -/
def want (s : ClientLoop) : Option ℕ :=
  match s.position with
  | .ended => none
  | .probing => some (min 1 recvBuffer)
  | .reading reader => some reader.want

/-- One call of `recv`, if the network can make that of it. -/
def step (s : ClientLoop) (d : Delivery) (stop : Bool) : Option ClientLoop := do
  let (r, rest) ← deliver s.unread (← s.want) d
  return { s with unread := rest, consumed := s.consumed ++ r.bytes }.resume r stop

/-- The calls of a schedule, with the request to stop at each. -/
def run (s : ClientLoop) (schedule : List (Delivery × Bool)) : Option ClientLoop :=
  schedule.foldlM (fun s e => s.step e.1 e.2) s

/-- The part of the current frame that was read. -/
def held (s : ClientLoop) : Bytes :=
  match s.position with
  | .reading reader => reader.held
  | .probing | .ended => []

end ClientLoop

/-- A frame that the decoder accepts. -/
def WellFormed (f : Bytes) : Prop := ∃ frame, Frame.decode f = some (.ok frame)

/-- No byte is lost: what was read are the dispatched frames and the part of the current one,
these are the first frames that were sent, and all of them when all is read. -/
structure Lossless (frames : List Bytes) (s : ClientLoop) : Prop where
  consumed : s.consumed = s.dispatched.flatten ++ s.held
  dispatched : s.dispatched <+: frames
  complete : s.unread = [] → s.held = [] → s.dispatched = frames

/-- The call drops bytes: it times out with a part of a length, or the probe gets a byte. -/
def Drops (s : ClientLoop) (d : Delivery) (stop : Bool) : Prop :=
  match s.position with
  | .reading (.header out) => d = .timeout ∧ out ≠ [] ∧ stop = false
  | .probing => ∃ n, d = .data n
  | _ => False

instance : ∀ d : Delivery, Decidable (∃ n, d = .data n)
  | .data n => .isTrue ⟨n, rfl⟩
  | .timeout | .closed => .isFalse nofun

instance : ∀ (s : ClientLoop) (d : Delivery) (stop : Bool), Decidable (Drops s d stop)
  | ⟨.reading (.header out), _, _, _⟩, d, stop =>
    inferInstanceAs (Decidable (d = .timeout ∧ out ≠ [] ∧ stop = false))
  | ⟨.probing, _, _, _⟩, d, _ => inferInstanceAs (Decidable (∃ n, d = .data n))
  | ⟨.reading (.body _ _), _, _, _⟩, _, _ | ⟨.ended, _, _, _⟩, _, _ => .isFalse id

/-- The loop is in step with the stream: it is inside the first of the frames that remain. -/
structure InStep (frames : List Bytes) (s : ClientLoop) : Prop where
  stream : s.consumed ++ s.unread = frames.flatten
  consumed : s.consumed = s.dispatched.flatten ++ s.held
  inside : ∃ rest, frames = s.dispatched ++ rest ∧
    ∀ reader, s.position = .reading reader → (rest = [] ∧ reader = .header []) ∨
      ∃ f after, rest = f :: after ∧ MidFrame f reader

section Steps
variable {frames : List Bytes} {s s' : ClientLoop} {d : Delivery} {stop : Bool}

/-- What a call can be: the probe returns without a byte or with one, or the reader of a frame
gets no bytes or some. -/
inductive ClientLoop.Called (s : ClientLoop) (stop : Bool) : Delivery → ClientLoop → Prop
  | hungUp (d : Delivery) : s.position = .probing → d = .timeout ∨ d = .closed →
      Called s stop d { s with position := .ended }
  | probed (n : ℕ) (bs rest : Bytes) : s.position = .probing → bs ≠ [] → s.unread = bs ++ rest →
      Called s stop (.data n)
        { s with
          unread := rest, consumed := s.consumed ++ bs, position := .reading (.header []) }
  | empty (reader : FrameReader) (d : Delivery) (r : RecvResult) : s.position = .reading reader →
      (d = .timeout ∧ r = .timeout ∨ d = .closed ∧ r = .closed ∧ s.unread = []) →
      Called s stop d (s.resume r stop)
  | data (reader : FrameReader) (n : ℕ) (bs rest : Bytes) : s.position = .reading reader →
      bs ≠ [] → bs.length ≤ reader.want → s.unread = bs ++ rest →
      Called s stop (.data n)
        ({ s with unread := rest, consumed := s.consumed ++ bs }.resume (.data bs) stop)

theorem ClientLoop.called_of_step (hstep : s.step d stop = some s') : s.Called stop d s' := by
  simp only [step, Option.bind_eq_bind, Option.bind_eq_some_iff, Option.pure_def, Option.some.injEq,
    Prod.exists] at hstep
  obtain ⟨n, hwant, r, rest, hdeliver, rfl⟩ := hstep
  obtain ⟨hunread, hlen, hr⟩ := deliver_eq_some hdeliver
  have hsame : s.unread = rest →
      ({ s with unread := rest, consumed := s.consumed ++ [] } : ClientLoop) = s := by
    rintro rfl
    rw [List.append_nil]
  have hpositions : s.position = .ended ∨ s.position = .probing ∨
      ∃ reader, s.position = .reading reader := by cases s.position <;> simp
  rcases hpositions with hpos | hpos | ⟨reader, hpos⟩
  · simp [want, hpos] at hwant
  · rcases hr with ⟨hd, rfl⟩ | ⟨hd, rfl, -⟩ | ⟨k, bs, rfl, rfl, hbs⟩
    · rw [RecvResult.bytes, hsame hunread, resume, hpos]
      exact .hungUp d hpos (.inl hd)
    · rw [RecvResult.bytes, hsame hunread, resume, hpos]
      exact .hungUp d hpos (.inr hd)
    · simp only [resume, hpos, recvSome]
      exact .probed k bs rest hpos hbs hunread
  · obtain rfl : reader.want = n := by simpa [want, hpos] using hwant
    rcases hr with ⟨hd, rfl⟩ | ⟨hd, rfl, hnil⟩ | ⟨k, bs, rfl, rfl, hbs⟩
    · rw [RecvResult.bytes, hsame hunread]
      exact .empty reader d _ hpos (.inl ⟨hd, rfl⟩)
    · rw [RecvResult.bytes, hsame hunread]
      exact .empty reader d _ hpos (.inr ⟨hd, rfl, hnil⟩)
    · exact .data reader k bs rest hpos hbs hlen hunread

theorem ClientLoop.run_concat (s : ClientLoop) (before : List (Delivery × Bool)) (d : Delivery)
    (stop : Bool) : s.run (before ++ [(d, stop)]) = (s.run before).bind fun s => s.step d stop := by
  rw [run, run, List.foldlM_append]
  cases List.foldlM (fun (s : ClientLoop) e => s.step e.1 e.2) s before <;> simp

theorem ClientLoop.not_ended_of_step (hstep : s.step d stop = some s') : s.position ≠ .ended := by
  intro hended
  cases called_of_step hstep <;> simp_all

theorem WellFormed.framed {f : Bytes} (h : WellFormed f) : Framed f :=
  framed_of_decode h.choose_spec

theorem nil_of_flatten_eq_nil {rest : List Bytes} (hrest : ∀ f ∈ rest, Framed f)
    (h : rest.flatten = []) : rest = [] := by
  cases rest with
  | nil => rfl
  | cons f after =>
    have hmin := (hrest f (by simp)).min
    rw [List.flatten_cons, List.append_eq_nil_iff] at h
    rw [h.1] at hmin
    cases hmin

/-- Before a frame the reader is in front of the first that remains, if any does. -/
theorem midFrame_header_nil (rest : List Bytes) :
    (rest = [] ∧ FrameReader.header [] = .header []) ∨
      ∃ f after, rest = f :: after ∧ MidFrame f (.header []) := by
  cases rest with
  | nil => exact .inl ⟨rfl, rfl⟩
  | cons f after => exact .inr ⟨f, after, rfl, List.nil_prefix, by decide⟩

theorem inStep_start (frames : List Bytes) : InStep frames { unread := frames.flatten } where
  stream := rfl
  consumed := rfl
  inside := by
    refine ⟨frames, rfl, fun reader hreader => ?_⟩
    obtain rfl := LoopPosition.reading.inj hreader
    exact midFrame_header_nil frames

theorem InStep.lossless (hframes : ∀ f ∈ frames, Framed f) (h : InStep frames s) :
    Lossless frames s := by
  obtain ⟨hstream, hconsumed, rest, hrest, -⟩ := h
  refine ⟨hconsumed, ⟨rest, hrest.symm⟩, fun hunread hheld => ?_⟩
  rw [hconsumed, hheld, hunread, hrest, List.append_nil, List.append_nil, List.flatten_append,
    List.self_eq_append_right] at hstream
  have hnil := nil_of_flatten_eq_nil (fun f hf => hframes f (by simp [hrest, hf])) hstream
  rw [hrest, hnil, List.append_nil]

/-- What remains of the frames begins with the part that was read. -/
theorem InStep.flatten_rest (h : InStep frames s) {rest : List Bytes}
    (hrest : frames = s.dispatched ++ rest) : rest.flatten = s.held ++ s.unread := by
  have hstream := h.stream
  rw [h.consumed, hrest, List.flatten_append, List.append_assoc] at hstream
  exact (List.append_cancel_left hstream).symm

/-- At the end of the stream no part of a length has been read. -/
theorem InStep.nil_of_closed (hframes : ∀ f ∈ frames, Framed f) (h : InStep frames s)
    {out : Bytes} (hpos : s.position = .reading (.header out)) (hunread : s.unread = []) :
    out = [] := by
  obtain ⟨rest, hrest, hinside⟩ := h.inside
  rcases hinside _ hpos with ⟨-, hreader⟩ | ⟨f, after, rfl, -, hlt⟩
  · exact FrameReader.header.inj hreader
  · have hflatten := congrArg List.length (h.flatten_rest hrest)
    have hmin := (hframes f (by simp [hrest])).min
    simp only [ClientLoop.held, hpos, hunread, FrameReader.held, List.flatten_cons,
      List.length_append, List.append_nil] at hflatten
    omega

/-- A call that returns no bytes drops none where no part of a length was read. -/
theorem InStep.probe (h : InStep frames s) (hpos : s.position = .reading (.header [])) :
    InStep frames { s with position := .probing } where
  stream := h.stream
  consumed := by simpa [ClientLoop.held, hpos, FrameReader.held] using h.consumed
  inside := by
    obtain ⟨rest, hrest, -⟩ := h.inside
    exact ⟨rest, hrest, fun reader hreader => by cases hreader⟩

/-- A frame that is complete and handled, where the loop goes on. -/
theorem InStep.handle {f : Bytes} {after : List Bytes} (hstream : s.consumed ++ s.unread =
      frames.flatten) (hframes : frames = s.dispatched ++ f :: after)
    (hconsumed : s.consumed = s.dispatched.flatten ++ f) (hend : (s.handle f).position ≠ .ended) :
    InStep frames (s.handle f) := by
  unfold ClientLoop.handle at hend ⊢
  split at hend
  · rename_i frame hdecode
    have hbye : frame.type ≠ .bye := fun hbye => hend (by simp [hbye])
    simp only [hbye, if_false]
    refine ⟨hstream, ?_, after, by simp [hframes], fun r hr => ?_⟩
    · simp [hconsumed, ClientLoop.held, FrameReader.held]
    · obtain rfl := LoopPosition.reading.inj hr
      exact midFrame_header_nil after
  · exact absurd rfl hend

/-- A call that returns bytes: they lead further into the frame, or complete it, or the length
is refused. -/
theorem InStep.resume_data (hframes : ∀ f ∈ frames, Framed f) (h : InStep frames s)
    {reader : FrameReader} (hpos : s.position = .reading reader) {bs rest : Bytes}
    (hbs : bs ≠ []) (hwant : bs.length ≤ reader.want) (hunread : s.unread = bs ++ rest) :
    (∃ reader', { s with unread := rest, consumed := s.consumed ++ bs }.resume (.data bs) stop =
        { s with unread := rest, consumed := s.consumed ++ bs, position := .reading reader' } ∧
      InStep frames
        { s with unread := rest, consumed := s.consumed ++ bs, position := .reading reader' }) ∨
    (∃ f after, { s with unread := rest, consumed := s.consumed ++ bs }.resume (.data bs) stop =
        { s with unread := rest, consumed := s.consumed ++ bs }.handle f ∧
      frames = s.dispatched ++ f :: after ∧ s.held ++ bs = f) ∨
    { s with unread := rest, consumed := s.consumed ++ bs }.resume (.data bs) stop =
      { s with unread := rest, consumed := s.consumed ++ bs, position := .ended } := by
  obtain ⟨remaining, hremaining, hinside⟩ := h.inside
  have hflatten := h.flatten_rest hremaining
  have hheld : s.held = reader.held := by rw [ClientLoop.held, hpos]
  have hconsumed := h.consumed
  rw [hheld, hunread] at hflatten
  rw [hheld] at hconsumed
  rcases hinside reader hpos with ⟨rfl, rfl⟩ | ⟨f, after, rfl, hin⟩
  · simp [FrameReader.held, hbs] at hflatten
  · have hf : Framed f := hframes f (by simp [hremaining])
    have hpre := held_append_prefix hf hin hwant hflatten
    rcases recvFrame_data hf hin hwant hpre with
      ⟨reader', hrecv, hin', hheld'⟩ | ⟨hrecv, hall⟩ | ⟨e, hrecv⟩
    · refine .inl ⟨reader', by simp only [ClientLoop.resume, hpos, hrecv], ?_, ?_, f :: after,
        hremaining, fun r hr => ?_⟩
      · simpa [hunread] using h.stream
      · simp only [ClientLoop.held, hheld', hconsumed, List.append_assoc]
      · obtain rfl := LoopPosition.reading.inj hr
        exact .inr ⟨f, after, rfl, hin'⟩
    · exact .inr (.inl ⟨f, after, by simp only [ClientLoop.resume, hpos, hrecv], hremaining,
        hheld.symm ▸ hall⟩)
    · exact .inr (.inr (by simp only [ClientLoop.resume, hpos, hrecv]))

/-- A call that returns bytes of the current frame. -/
theorem InStep.data (hframes : ∀ f ∈ frames, Framed f) (h : InStep frames s)
    {reader : FrameReader} (hpos : s.position = .reading reader) {bs rest : Bytes}
    (hbs : bs ≠ []) (hwant : bs.length ≤ reader.want) (hunread : s.unread = bs ++ rest)
    (hend : ({ s with unread := rest, consumed := s.consumed ++ bs }.resume (.data bs)
      stop).position ≠ .ended) :
    InStep frames ({ s with unread := rest, consumed := s.consumed ++ bs }.resume (.data bs)
      stop) := by
  rcases h.resume_data hframes hpos hbs hwant hunread with
    ⟨reader', hresume, hin⟩ | ⟨f, after, hresume, hremaining, hall⟩ | hresume
  · rwa [hresume]
  · rw [hresume] at hend ⊢
    refine InStep.handle ?_ hremaining ?_ hend
    · simpa [hunread] using h.stream
    · simp only [h.consumed, List.append_assoc, hall]
  · exact absurd (by rw [hresume]) hend

/-- A call that returns no bytes, inside a frame or in front of one. -/
theorem InStep.empty (hframes : ∀ f ∈ frames, Framed f) (h : InStep frames s)
    {reader : FrameReader} (hpos : s.position = .reading reader) {r : RecvResult}
    (hr : r = .timeout ∨ r = .closed ∧ s.unread = [])
    (hdrops : ∀ out, reader = .header out → r = .timeout → out ≠ [] → stop = true)
    (hend : (s.resume r stop).position ≠ .ended) : InStep frames (s.resume r stop) := by
  cases reader with
  | body hdr out =>
    have hended : (s.resume r stop).position = .ended := by
      rcases hr with rfl | ⟨rfl, -⟩ <;> simp [ClientLoop.resume, hpos, recvFrame, recvExact]
    exact absurd hended hend
  | header out =>
    have hresume : s.resume r stop = { s with position := if stop then .ended else .probing } := by
      rcases hr with rfl | ⟨rfl, -⟩ <;> simp [ClientLoop.resume, hpos, recvFrame, recvExact]
    rw [hresume] at hend ⊢
    cases stop with
    | true => exact absurd rfl hend
    | false =>
      have hout : out = [] := by
        rcases hr with rfl | ⟨-, hunread⟩
        · by_contra hne
          cases hdrops out rfl rfl hne
        · exact h.nil_of_closed hframes hpos hunread
      exact h.probe (hout ▸ hpos)

/-- A call that drops no bytes keeps the loop in step. -/
theorem InStep.step (hframes : ∀ f ∈ frames, Framed f) (h : InStep frames s)
    (hstep : s.step d stop = some s') (hdrops : ¬ Drops s d stop) (hend : s'.position ≠ .ended) :
    InStep frames s' := by
  cases ClientLoop.called_of_step hstep with
  | hungUp => exact absurd rfl hend
  | probed n bs rest hpos => exact absurd (by simp [Drops, hpos]) hdrops
  | empty reader _ r hpos hr =>
    refine h.empty hframes hpos (hr.imp And.right And.right) (fun out hout hr' hne => ?_) hend
    have hd : d = .timeout := by
      rcases hr with ⟨hd, -⟩ | ⟨-, hclosed, -⟩
      · exact hd
      · cases hclosed.symm.trans hr'
    simpa [Drops, hpos, hout, hd, hne] using hdrops
  | data reader n bs rest hpos hbs hlen hunread => exact h.data hframes hpos hbs hlen hunread hend

/-- A call that drops bytes leaves the loop running, with bytes read that are in no frame. -/
theorem InStep.not_lossless (h : InStep frames s) (hstep : s.step d stop = some s')
    (hdrops : Drops s d stop) : s'.position ≠ .ended ∧ ¬ Lossless frames s' := by
  have hconsumed := h.consumed
  cases ClientLoop.called_of_step hstep with
  | hungUp _ hpos hd =>
    obtain ⟨n, rfl⟩ : ∃ n, d = .data n := by simpa [Drops, hpos] using hdrops
    simp at hd
  | probed n bs rest hpos hbs =>
    simp only [ClientLoop.held, hpos, List.append_nil] at hconsumed
    refine ⟨by simp, fun hlossless => hbs ?_⟩
    have hheld := hlossless.consumed
    simp only [ClientLoop.held, FrameReader.held, List.append_nil, hconsumed] at hheld
    simpa using hheld
  | empty reader _ r hpos hr =>
    cases reader with
    | body hdr out => simp [Drops, hpos] at hdrops
    | header out =>
      obtain ⟨rfl, hout, rfl⟩ : d = .timeout ∧ out ≠ [] ∧ stop = false := by
        simpa [Drops, hpos] using hdrops
      obtain rfl : r = .timeout := by simpa using hr
      simp only [ClientLoop.held, hpos, FrameReader.held] at hconsumed
      simp only [ClientLoop.resume, hpos, recvFrame, recvExact, Bool.false_eq_true, if_false]
      refine ⟨by simp, fun hlossless => hout ?_⟩
      have hheld := hlossless.consumed
      simp only [ClientLoop.held, List.append_nil, hconsumed] at hheld
      simpa using hheld
  | data reader n bs rest hpos => cases reader <;> simp [Drops, hpos] at hdrops

/-- A call dispatches the next of the frames, or none. `BYE` is the last. -/
theorem InStep.dispatched_step (hframes : ∀ f ∈ frames, Framed f) (h : InStep frames s)
    (hstep : s.step d stop = some s') : s'.dispatched = s.dispatched ∨
      ∃ full f after, Frame.decode full = some (.ok f) ∧ frames = s.dispatched ++ full :: after ∧
        s'.dispatched = s.dispatched ++ [full] ∧ (f.type = .bye → s'.position = .ended) := by
  cases ClientLoop.called_of_step hstep with
  | hungUp | probed => exact .inl rfl
  | empty reader _ r hpos hr =>
    have hempty : r = .timeout ∨ r = .closed := hr.imp And.right fun hclosed => hclosed.2.1
    left
    rcases hempty with rfl | rfl <;> cases reader <;>
      simp [ClientLoop.resume, hpos, recvFrame, recvExact]
  | data reader n bs rest hpos hbs hlen hunread =>
    rcases h.resume_data hframes hpos hbs hlen hunread with
      ⟨reader', hresume, -⟩ | ⟨full, after, hresume, hremaining, -⟩ | hresume
    · exact .inl (by rw [hresume])
    · rw [hresume, ClientLoop.handle]
      split
      · rename_i f hdecode
        exact .inr ⟨full, f, after, hdecode, hremaining, rfl, fun hbye => by simp [hbye]⟩
      · exact .inl rfl
    · exact .inl (by rw [hresume])

/-- More frames are sent. -/
theorem InStep.append (h : InStep frames s) (full : Bytes) :
    InStep (frames ++ [full]) { s with unread := s.unread ++ full } where
  stream := by simp [← List.append_assoc, h.stream]
  consumed := h.consumed
  inside := by
    obtain ⟨rest, hrest, hinside⟩ := h.inside
    refine ⟨rest ++ [full], by rw [hrest, List.append_assoc], fun reader hreader => ?_⟩
    rcases hinside reader hreader with ⟨rfl, rfl⟩ | ⟨f, after, rfl, hin⟩
    · exact midFrame_header_nil _
    · exact .inr ⟨f, after ++ [full], rfl, hin⟩

end Steps

/-- Whenever the loop has not ended, no byte has been lost. -/
def LosesNoByte (frames : List Bytes) (schedule : List (Delivery × Bool)) : Prop :=
  ∀ before s, before <+: schedule → ClientLoop.run { unread := frames.flatten } before = some s →
    s.position ≠ .ended → Lossless frames s

/-- No call of the schedule drops bytes. -/
def NeverDrops (frames : List Bytes) (schedule : List (Delivery × Bool)) : Prop :=
  ∀ before d stop s s', before ++ [(d, stop)] <+: schedule →
    ClientLoop.run { unread := frames.flatten } before = some s → s.step d stop = some s' →
    ¬ Drops s d stop

section Runs
variable {frames : List Bytes} {schedule : List (Delivery × Bool)}

/-- The loop stays in step as long as no call that it makes in step drops bytes. -/
theorem inStep_run (hframes : ∀ f ∈ frames, Framed f)
    (hno : ∀ before d stop s s', before ++ [(d, stop)] <+: schedule →
      ClientLoop.run { unread := frames.flatten } before = some s → InStep frames s →
      s.step d stop = some s' → ¬ Drops s d stop)
    {before : List (Delivery × Bool)} {s : ClientLoop} (hbefore : before <+: schedule)
    (hrun : ClientLoop.run { unread := frames.flatten } before = some s)
    (hend : s.position ≠ .ended) : InStep frames s := by
  induction before using List.reverseRecOn generalizing s with
  | nil =>
    obtain rfl := Option.some.inj hrun
    exact inStep_start frames
  | append_singleton before e ih =>
    obtain ⟨d, stop⟩ := e
    rw [ClientLoop.run_concat, Option.bind_eq_some_iff] at hrun
    obtain ⟨s₀, hrun₀, hstep⟩ := hrun
    have hpre := (List.prefix_append before [(d, stop)]).trans hbefore
    have hin := ih hpre hrun₀ (ClientLoop.not_ended_of_step hstep)
    exact hin.step hframes hstep (hno before d stop s₀ s hbefore hrun₀ hin hstep) hend

/-- The server loses no byte exactly when no call drops any. -/
theorem losesNoByte_iff (hframes : ∀ f ∈ frames, WellFormed f)
    (schedule : List (Delivery × Bool)) :
    LosesNoByte frames schedule ↔ NeverDrops frames schedule := by
  have hframed : ∀ f ∈ frames, Framed f := fun f hf => (hframes f hf).framed
  constructor
  · intro h
    have hno : ∀ before d stop s s', before ++ [(d, stop)] <+: schedule →
        ClientLoop.run { unread := frames.flatten } before = some s → InStep frames s →
        s.step d stop = some s' → ¬ Drops s d stop := by
      intro before d stop s s' hbefore hrun hin hstep hdrops
      obtain ⟨hend, hnot⟩ := hin.not_lossless hstep hdrops
      refine hnot (h (before ++ [(d, stop)]) s' hbefore ?_ hend)
      rw [ClientLoop.run_concat, hrun]
      exact hstep
    intro before d stop s s' hbefore hrun hstep
    have hpre := (List.prefix_append before [(d, stop)]).trans hbefore
    exact hno before d stop s s' hbefore hrun
      (inStep_run hframed hno hpre hrun (ClientLoop.not_ended_of_step hstep)) hstep
  · intro h before s hbefore hrun hend
    exact (inStep_run hframed (fun before d stop s s' hbefore hrun _ =>
      h before d stop s s' hbefore hrun) hbefore hrun hend).lossless hframed

end Runs

/-- A ping as it is sent. -/
def pingFrame : Bytes :=
  Frame.spell (Frame.wireLength []) (crc32 (Frame.body kProtocolVersion MsgType.ping.code []))
    kProtocolVersion MsgType.ping.code []

theorem wellFormed_pingFrame : ∀ f ∈ [pingFrame], WellFormed f := by
  intro f hf
  obtain rfl := List.mem_singleton.mp hf
  exact ⟨{ type := .ping }, (Frame.decode_eq_ok_iff _ _).mpr
    ⟨rfl, by decide, Frame.encode_eq .ping [] kProtocolVersion⟩⟩

/-- A ping in three parts, and a pause after it that ends with the connection. -/
theorem losesNoByte_iff_ping : (∀ f ∈ [pingFrame], WellFormed f) ∧
    (LosesNoByte [pingFrame] [(.data 1, false), (.data 3, false), (.data 8, false),
        (.timeout, false), (.closed, false)] ↔
      NeverDrops [pingFrame] [(.data 1, false), (.data 3, false), (.data 8, false),
        (.timeout, false), (.closed, false)]) :=
  ⟨wellFormed_pingFrame, losesNoByte_iff wellFormed_pingFrame _⟩

/-- A pause before a ping: the probe takes the first byte of the ping. -/
theorem not_losesNoByte_pause : (∀ f ∈ [pingFrame], WellFormed f) ∧
    ¬ LosesNoByte [pingFrame] [(.timeout, false), (.data 1, false)] := by
  refine ⟨wellFormed_pingFrame, fun h => ?_⟩
  have hrun : ClientLoop.run { unread := [pingFrame].flatten }
      [(.timeout, false), (.data 1, false)] =
        some { position := .reading (.header []), unread := pingFrame.drop 1,
               consumed := pingFrame.take 1 } := by
    rfl
  have hconsumed := (h _ _ List.prefix_rfl hrun (by simp)).consumed
  cases hconsumed

end ServingObservatory
