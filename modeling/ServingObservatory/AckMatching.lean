import ServingObservatory.SourceConnection

/-!
# Acknowledgements and their observations

Acknowledgements name no observation and are told apart by their order alone. A call that starts
on a quiet connection therefore reads the answer to its own frame, or none. An earlier answer
that was not read is taken for the next one.
-/
namespace ServingObservatory

/-- What a call may still read of the answer to the frame at its position: nothing so far, and
nothing before that frame has its turn, or the part of the acknowledgement that is left. -/
def Awaits (s : SourceConnection) (position : ℕ) (reader : FrameReader) : Prop :=
  (reader = .header [] ∧ s.replies = [] ∧
    (s.loop.position ≠ .ended → s.ingested.length ≤ position →
      goUnanswered ((s.sent.take position).drop s.ingested.length) = true)) ∨
  ∃ full i, s.ingested[position]? = some (some i) ∧ Framed full ∧ MidFrame full reader ∧
    reader.held ++ s.replies = full ∧ ackOf (.ok (some full)) = .ok i.result.ack

/-- The call waits for the answer to the last frame that was sent, that of its observation. -/
def Awaiting (s : SourceConnection) (o : Observation) (position : ℕ) (reader : FrameReader) :
    Prop :=
  (∃ b full, encodeObservationPayload o = .ok b ∧ Frame.encode .obs b = .ok full ∧
    s.sent[position]? = some full) ∧
  s.sent.length = position + 1 ∧ Awaits s position reader

/-- The server has handled the first of the frames that were sent, and a call that waits for an
answer gets its own. -/
structure InTune (s : SourceConnection) : Prop where
  framed : ∀ f ∈ s.sent, Framed f
  inStep : s.loop.position ≠ .ended → InStep s.sent s.loop
  count : s.ingested.length = s.loop.dispatched.length
  ingested : ∀ (n : ℕ) (i : Ingestion), s.ingested[n]? = some (some i) → ∃ full f,
    s.sent[n]? = some full ∧ Frame.decode full = some (.ok f) ∧ f.request = .ingest i.observation
  awaiting : ∀ o n reader, s.waiting = some (.sendObservation o n, reader) →
    Awaiting s o n reader
  returned : AcksMatch s

section Frames

theorem getElem?_of_prefix {α : Type} {l l' : List α} (h : l <+: l') {n : ℕ} {a : α}
    (hn : l[n]? = some a) : l'[n]? = some a := by
  obtain ⟨tail, rfl⟩ := h
  obtain ⟨hlt, -⟩ := List.getElem?_eq_some_iff.mp hn
  rwa [List.getElem?_append_left hlt]

theorem drop_take_of_getElem? {α : Type} {l : List α} {k n : ℕ} {a : α} (hk : k < n)
    (ha : l[k]? = some a) : (l.take n).drop k = a :: (l.take n).drop (k + 1) := by
  obtain ⟨hlt, hget⟩ := List.getElem?_eq_some_iff.mp ha
  have hlen : k < (l.take n).length := by
    rw [List.length_take]
    omega
  rw [List.drop_eq_getElem_cons hlen, List.getElem_take, hget]

/-- An encoded frame is decoded to its own parts, if it is decoded at all. -/
theorem Frame.eq_of_decode {t : MsgType} {b full : Bytes} {f : Frame}
    (hencode : Frame.encode t b = .ok full) (hdecode : Frame.decode full = some (.ok f)) :
    f = { type := t, payload := b } := by
  rw [Frame.encode_eq, Except.ok.injEq] at hencode
  subst hencode
  obtain ⟨-, -, -, -, hcode, hf⟩ := (Frame.decode_spell_eq_ok_iff ..).mp hdecode
  have htype : f.type = t := by
    apply Option.some.inj
    rw [← (MsgType.ofCode_eq_some_iff _ f.type).mpr rfl, ← hcode,
      (MsgType.ofCode_eq_some_iff _ t).mpr rfl]
  rw [hf, htype]

theorem Observation.frame_eq_ok_iff {o : Observation} {full : Bytes} : o.frame = .ok full ↔
    ∃ b, encodeObservationPayload o = .ok b ∧ Frame.encode .obs b = .ok full :=
  Decoding.bind_eq_ok

/-- The request of an observation frame. -/
theorem Frame.request_of_obs {b full : Bytes} {f : Frame} (hencode : Frame.encode .obs b = .ok full)
    (hdecode : Frame.decode full = some (.ok f)) : f.request =
      match readObservationPayload b with
      | .ok o => .ingest o
      | .error _ => .nothing := by
  rw [Frame.eq_of_decode hencode hdecode]
  rfl

/-- An encodable observation is read as it was. -/
theorem Observation.Encodable.eq_of_read {o o' : Observation} (h : o.Encodable) {b : Bytes}
    (hb : encodeObservationPayload o = .ok b) (hread : readObservationPayload b = .ok o') :
    o' = o := by
  obtain ⟨-, rfl⟩ := (encodeObservationPayload_eq_ok_iff o b).mp hb
  have hvalid := WireObservation.valid_ofObservation h
  have hspell := WireObservation.readObservationPayload_spell hvalid
  rw [hspell, Except.ok.injEq, WireObservation.observation_ofObservation] at hread
  exact hread.symm

/-- A call of `recv` that returns no bytes leaves `recv_frame` without an acknowledgement. -/
theorem ackOf_recvFrame_of_empty (reader : FrameReader) {r : RecvResult}
    (hr : r = .timeout ∨ r = .closed) :
    ∃ result e, recvFrame reader r = .done result ∧ ackOf result = .error e := by
  rcases hr with rfl | rfl <;> cases reader <;> exact ⟨_, _, rfl, rfl⟩

end Frames

section Client
variable {s : SourceConnection}

theorem Acknowledged.mono {s' : SourceConnection} {o : Observation} {n : ℕ} {ack : SourceAck}
    (h : Acknowledged s o n ack) (hsent : s.sent <+: s'.sent)
    (hingested : s.ingested <+: s'.ingested) : Acknowledged s' o n ack := by
  obtain ⟨b, full, i, hb, hfull, hs, hi, hrest⟩ := h
  exact ⟨b, full, i, hb, hfull, getElem?_of_prefix hsent hs, getElem?_of_prefix hingested hi, hrest⟩

theorem AcksMatch.mono {s' : SourceConnection} (h : AcksMatch s) (hreturned : s'.returned =
    s.returned) (hsent : s.sent <+: s'.sent) (hingested : s.ingested <+: s'.ingested) :
    AcksMatch s' := fun r hr ack hack => (h r (hreturned ▸ hr) ack hack).mono hsent hingested

/-- A call of `recv` while a call waits: it goes on, or returns, and then with the result of the
ingestion or without an acknowledgement. -/
theorem Awaits.recv {position : ℕ} {reader : FrameReader} (h : Awaits s position reader)
    {d : Delivery} {r : RecvResult} {rest : Bytes}
    (hdeliver : deliver s.replies reader.want d = some (r, rest)) :
    (∃ reader', recvFrame reader r = .pending reader' ∧
      Awaits { s with replies := rest } position reader') ∨
    ∃ result, recvFrame reader r = .done result ∧ ∀ a, ackOf result = .ok a →
      ∃ i, s.ingested[position]? = some (some i) ∧ a = i.result.ack := by
  obtain ⟨hreplies, hlen, hr⟩ := deliver_eq_some hdeliver
  have hempty : r = .timeout ∨ r = .closed → ∃ result, recvFrame reader r = .done result ∧
      ∀ a, ackOf result = .ok a →
        ∃ i, s.ingested[position]? = some (some i) ∧ a = i.result.ack := by
    intro hr
    obtain ⟨result, e, hrecv, hack⟩ := ackOf_recvFrame_of_empty reader hr
    exact ⟨result, hrecv, fun a ha => by rw [hack] at ha; cases ha⟩
  rcases hr with ⟨-, rfl⟩ | ⟨-, rfl, -⟩ | ⟨k, bs, rfl, rfl, hbs⟩
  · exact .inr (hempty (.inl rfl))
  · exact .inr (hempty (.inr rfl))
  · rw [RecvResult.bytes] at hreplies hlen
    rcases h with ⟨-, hnil, -⟩ | ⟨full, i, hi, hframed, hin, hheld, hack⟩
    · rw [hnil] at hreplies
      exact absurd (List.append_eq_nil_iff.mp hreplies.symm).1 hbs
    · have hstream : full ++ [] = reader.held ++ (bs ++ rest) := by
        rw [List.append_nil, ← hheld, hreplies]
      have hpre := held_append_prefix hframed hin hlen hstream
      rcases recvFrame_data hframed hin hlen hpre with
        ⟨reader', hrecv, hin', hheld'⟩ | ⟨hrecv, -⟩ | ⟨e, hrecv⟩
      · have hleft : reader'.held ++ rest = full := by
          rw [hheld', List.append_assoc, ← hstream, List.append_nil]
        exact .inl ⟨reader', hrecv, .inr ⟨full, i, hi, hframed, hin', hleft, hack⟩⟩
      · refine .inr ⟨_, hrecv, fun a ha => ⟨i, hi, ?_⟩⟩
        rw [hack, Except.ok.injEq] at ha
        exact ha.symm
      · exact .inr ⟨_, hrecv, fun a ha => by cases ha⟩

/-- A call that has returned leaves the connection in tune. -/
theorem InTune.record (h : InTune s) {o : Observation} {n : ℕ} {result : Except Str SourceAck}
    (hack : ∀ ack, result = .ok ack → Acknowledged s o n ack) : InTune (s.record o n result) where
  framed := h.framed
  inStep := h.inStep
  count := h.count
  ingested := h.ingested
  awaiting := h.awaiting
  returned r hr ack hok := by
    rcases List.mem_append.mp hr with hr | hr
    · exact h.returned r hr ack hok
    · obtain rfl := List.mem_singleton.mp hr
      exact hack ack hok

/-- A frame is sent while no call waits; the call may then wait for an answer. -/
theorem InTune.sendAll (h : InTune s) {full : Bytes} (hfull : Framed full)
    {waiting : Option (SourceCall × FrameReader)}
    (hwaiting : ∀ o n reader, waiting = some (.sendObservation o n, reader) →
      Awaiting (s.sendAll full) o n reader) :
    InTune { s.sendAll full with waiting := waiting } where
  framed f hf := by
    rcases List.mem_append.mp hf with hf | hf
    · exact h.framed f hf
    · exact List.mem_singleton.mp hf ▸ hfull
  inStep hend := (h.inStep hend).append full
  count := h.count
  ingested n i hi := by
    obtain ⟨full', f, hsent, hrest⟩ := h.ingested n i hi
    exact ⟨full', f, getElem?_of_prefix (List.prefix_append _ _) hsent, hrest⟩
  awaiting := hwaiting
  returned := h.returned.mono rfl (List.prefix_append _ _) List.prefix_rfl

/-- A call that waits for anything but an acknowledgement of an observation, or none. -/
theorem InTune.waiting (h : InTune s) {waiting : Option (SourceCall × FrameReader)}
    (hwaiting : ∀ o n reader, waiting = some (.sendObservation o n, reader) →
      Awaiting s o n reader) : InTune { s with waiting := waiting } where
  framed := h.framed
  inStep := h.inStep
  count := h.count
  ingested := h.ingested
  awaiting := hwaiting
  returned := h.returned

theorem InTune.sendHello (h : InTune s) {hello : HelloPayload}
    (hfits : FitsFrame (encodeHello hello)) (failure : Option Str) :
    InTune (s.sendHello hello failure) := by
  unfold SourceConnection.sendHello
  split
  · rename_i full hframe
    obtain ⟨b, hb, hfull⟩ := Decoding.bind_eq_ok.mp hframe
    rw [hb] at hfits
    exact h.sendAll (framed_encode hfits hfull) fun o n reader hw => by cases hw
  · exact h

theorem InTune.sendObservationFire (h : InTune s) (hidle : s.waiting = none) {o : Observation}
    (hfits : FitsFrame (encodeObservationPayload o)) (failure : Option Str) :
    InTune (s.sendObservationFire o failure) := by
  unfold SourceConnection.sendObservationFire
  split
  · exact h
  · split
    · rename_i full hframe
      obtain ⟨b, hb, hfull⟩ := Observation.frame_eq_ok_iff.mp hframe
      rw [hb] at hfits
      exact h.sendAll (framed_encode hfits hfull) fun o n reader hw => by
        simp [hidle] at hw
    · exact h

/-- On a quiet connection the answer that is waited for is the next one to come. -/
theorem InTune.sendObservation (h : InTune s) {o : Observation} {failure : Option Str}
    (hfits : FitsFrame (encodeObservationPayload o))
    (hquiet : s.session = .registered → failure = none → s.Quiet) :
    InTune (s.sendObservation o failure) := by
  unfold SourceConnection.sendObservation
  split
  · exact h.record fun ack hack => by cases hack
  · rename_i hregistered
    split
    · rename_i full hframe
      obtain ⟨b, hb, hfull⟩ := Observation.frame_eq_ok_iff.mp hframe
      obtain ⟨hnil, hunanswered⟩ := hquiet (not_not.mp hregistered) rfl
      rw [hb] at hfits
      refine h.sendAll (framed_encode hfits hfull) fun o' n reader hw => ?_
      obtain ⟨⟨rfl, rfl⟩, rfl⟩ : (o = o' ∧ s.sent.length = n) ∧ FrameReader.header [] = reader := by
        simpa using hw
      refine ⟨⟨b, full, hb, hfull, List.getElem?_concat_length⟩,
        by simp [SourceConnection.sendAll], ?_⟩
      refine .inl ⟨rfl, hnil, fun hend _ => ?_⟩
      simpa [SourceConnection.sendAll] using hunanswered hend
    · exact h.record fun ack hack => by cases hack
    · exact h

/-- The observation of a frame that was sent and ingested. -/
theorem Awaiting.acknowledged (h : InTune s) {o : Observation} {n : ℕ} {reader : FrameReader}
    (hwait : Awaiting s o n reader) {i : Ingestion} (hi : s.ingested[n]? = some (some i))
    {ack : SourceAck} (hack : ack.payload = i.result.ack) : Acknowledged s o n ack := by
  obtain ⟨⟨b, full, hb, hfull, hsent⟩, -, -⟩ := hwait
  obtain ⟨full', f, hsent', hdecode, hrequest⟩ := h.ingested n i hi
  obtain rfl : full = full' := Option.some.inj (hsent.symm.trans hsent')
  rw [Frame.request_of_obs hfull hdecode] at hrequest
  split at hrequest
  · rename_i o' hread
    rw [ClientRequest.ingest.injEq] at hrequest
    rw [hrequest] at hread
    exact ⟨b, full, i, hb, hfull, hsent, hi, hread, fun henc => henc.eq_of_read hb hread, hack⟩
  · cases hrequest

theorem InTune.finish (h : InTune s) (result : Except Str (Option Bytes)) (call : SourceCall)
    (hcall : ∀ o n, call = .sendObservation o n → ∀ a, ackOf result = .ok a →
      Acknowledged s o n { ok := true, payload := a }) : InTune (s.finish result call) := by
  cases call with
  | sendHello =>
    simp only [SourceConnection.finish]
    split
    · exact ⟨h.framed, h.inStep, h.count, h.ingested, h.awaiting, h.returned⟩
    · exact h
  | sendObservation o n =>
    refine h.record fun ack hack => ?_
    cases ha : ackOf result with
    | error e => simp [sourceAck, ha] at hack
    | ok a =>
      obtain rfl : { ok := true, payload := a } = ack := by simpa [sourceAck, ha] using hack
      exact hcall o n rfl a ha
  | recvAck => exact h

theorem InTune.clientRecv (h : InTune s) (d : Delivery) : InTune (s.clientRecv d) := by
  unfold SourceConnection.clientRecv
  split
  · exact h
  rename_i call reader hcall
  split
  · exact h
  rename_i r rest hdeliver
  have hrest : InTune { s with replies := rest, waiting := none } :=
    ⟨h.framed, h.inStep, h.count, h.ingested, fun o n reader hw => (nomatch hw), h.returned⟩
  split
  · rename_i reader' hrecv
    refine ⟨h.framed, h.inStep, h.count, h.ingested, fun o n reader₁ hw => ?_, h.returned⟩
    obtain ⟨rfl, rfl⟩ : call = .sendObservation o n ∧ reader' = reader₁ := by simpa using hw
    obtain ⟨hsent, hlast, hawaits⟩ := h.awaiting o n reader hcall
    rcases hawaits.recv hdeliver with ⟨reader₂, hrecv₂, hleft⟩ | ⟨result, hrecv₂, -⟩
    · obtain rfl : reader' = reader₂ := FrameStep.pending.inj (hrecv.symm.trans hrecv₂)
      exact ⟨hsent, hlast, hleft⟩
    · cases hrecv.symm.trans hrecv₂
  · rename_i result hrecv
    refine hrest.finish result call fun o n hobs a ha => ?_
    subst hobs
    have hwait := h.awaiting o n reader hcall
    rcases hwait.2.2.recv hdeliver with ⟨reader₂, hrecv₂, -⟩ | ⟨result₂, hrecv₂, hresult⟩
    · cases hrecv.symm.trans hrecv₂
    · obtain rfl : result = result₂ := FrameStep.done.inj (hrecv.symm.trans hrecv₂)
      obtain ⟨i, hi, rfl⟩ := hresult a ha
      exact hwait.acknowledged h hi rfl

end Client

section Server
variable {s : SourceConnection}

theorem goUnanswered_cons {full : Bytes} {rest : List Bytes} {f : Frame}
    (hdecode : Frame.decode full = some (.ok f)) (h : goUnanswered (full :: rest) = true) :
    f.request = .bye ∨ f.request = .nothing ∧ goUnanswered rest = true := by
  simp only [goUnanswered, hdecode] at h
  split at h
  · rename_i hbye
    exact .inl hbye
  · rename_i hnothing
    exact .inr ⟨hnothing, h⟩
  · cases h

theorem ClientRequest.eq_of_ingestion {r : ClientRequest} {c : Coordinator} {i : Ingestion}
    (h : r.ingestion c = some i) : r = .ingest i.observation := by
  cases r <;> simp only [ingestion, reduceCtorEq, Option.some.injEq] at h
  rw [← h]

theorem Frame.type_of_bye {f : Frame} (h : f.request = .bye) : f.type = .bye := by
  unfold Frame.request at h
  split at h
  · split at h <;> cases h
  · split at h <;> cases h
  all_goals first | assumption | cases h

/-- The frame that has its turn while a call waits: one before that of the call gets no answer,
and that of the call gets its acknowledgement. -/
theorem Awaiting.handle {o : Observation} {n : ℕ} {reader : FrameReader}
    (hwait : Awaiting s o n reader) (hrunning : s.loop.position ≠ .ended) {full : Bytes} {f : Frame}
    (hnext : s.sent[s.ingested.length]? = some full) (hdecode : Frame.decode full = some (.ok f))
    {loop : ClientLoop} (hbye : f.type = .bye → loop.position = .ended) (c : Coordinator) :
    ∃ reply, (s.coordinator.dispatch f.request).1 = .ok reply ∧
      Awaits { s with
        loop := loop, coordinator := c, replies := s.replies ++ reply.getD []
        ingested := s.ingested ++ [f.request.ingestion s.coordinator] } n reader := by
  obtain ⟨⟨b, full₀, hb, hfull, hsent⟩, hlast, hawaits⟩ := hwait
  obtain ⟨hlt, -⟩ := List.getElem?_eq_some_iff.mp hnext
  have hle : s.ingested.length ≤ n := by omega
  rcases hawaits with ⟨rfl, hnil, hunanswered⟩ | ⟨-, i, hi, -⟩
  · have hanswer := hunanswered hrunning hle
    rcases hle.lt_or_eq with hbefore | rfl
    · rw [drop_take_of_getElem? hbefore hnext] at hanswer
      rcases goUnanswered_cons hdecode hanswer with hrequest | ⟨hrequest, hrest⟩
      · refine ⟨none, by rw [hrequest]; rfl, .inl ⟨rfl, by simp [hnil], fun hend => ?_⟩⟩
        exact absurd (hbye (Frame.type_of_bye hrequest)) hend
      · refine ⟨none, by rw [hrequest]; rfl, .inl ⟨rfl, by simp [hnil], fun _ _ => ?_⟩⟩
        simpa using hrest
    · obtain rfl : full₀ = full := Option.some.inj (hsent.symm.trans hnext)
      have hrequest := Frame.request_of_obs hfull hdecode
      cases hread : readObservationPayload b with
      | ok o' =>
        rw [hread] at hrequest
        obtain ⟨reply, hdispatch, hframed, hack⟩ := s.coordinator.dispatch_ingest o'
        refine ⟨some reply, by rw [hrequest, hdispatch], .inr ⟨reply, ⟨s.coordinator, o'⟩, ?_,
          hframed, ⟨List.nil_prefix, by decide⟩, by simp [hnil, FrameReader.held], hack⟩⟩
        rw [hrequest]
        exact List.getElem?_concat_length
      | error e =>
        rw [hread] at hrequest
        refine ⟨none, by rw [hrequest]; rfl, .inl ⟨rfl, by simp [hnil], fun _ hlen => ?_⟩⟩
        simp at hlen
  · obtain ⟨hhandled, -⟩ := List.getElem?_eq_some_iff.mp hi
    omega

theorem InTune.ingested_append (h : InTune s) {full : Bytes} {f : Frame} (c : Coordinator)
    (hnext : s.sent[s.ingested.length]? = some full) (hdecode : Frame.decode full = some (.ok f))
    (n : ℕ) (i : Ingestion) (hi : (s.ingested ++ [f.request.ingestion c])[n]? = some (some i)) :
    ∃ full f, s.sent[n]? = some full ∧ Frame.decode full = some (.ok f) ∧
      f.request = .ingest i.observation := by
  rcases lt_or_ge n s.ingested.length with hlt | hge
  · rw [List.getElem?_append_left hlt] at hi
    exact h.ingested n i hi
  · rw [List.getElem?_append_right hge, List.getElem?_singleton] at hi
    split at hi
    · rename_i hzero
      obtain rfl : n = s.ingested.length := by omega
      exact ⟨full, f, hnext, hdecode, ClientRequest.eq_of_ingestion (Option.some.inj hi)⟩
    · cases hi

/-- The server handles the next of the frames that were sent. -/
theorem InTune.handle (h : InTune s) (hrunning : s.loop.position ≠ .ended) {full : Bytes}
    {f : Frame} (hnext : s.sent[s.ingested.length]? = some full)
    (hdecode : Frame.decode full = some (.ok f)) {loop : ClientLoop}
    (hin : loop.position ≠ .ended → InStep s.sent loop)
    (hcount : loop.dispatched.length = s.ingested.length + 1)
    (hbye : f.type = .bye → loop.position = .ended) :
    InTune (SourceConnection.handle { s with loop := loop } full) := by
  have hawaiting := fun o n reader hw (c : Coordinator) =>
    (h.awaiting o n reader hw).handle hrunning hnext hdecode hbye c
  have hreturned : ∀ s' : SourceConnection, s'.returned = s.returned → s'.sent = s.sent →
      s'.ingested = s.ingested ++ [f.request.ingestion s.coordinator] → AcksMatch s' :=
    fun s' hret hsent hing => h.returned.mono hret (hsent ▸ List.prefix_rfl)
      (hing ▸ List.prefix_append _ _)
  unfold SourceConnection.handle
  simp only [hdecode]
  cases hreply : (s.coordinator.dispatch f.request).1 with
  | ok reply =>
    refine ⟨h.framed, hin, by simp [hcount], h.ingested_append _ hnext hdecode,
      fun o n reader hw => ?_, hreturned _ rfl rfl rfl⟩
    obtain ⟨reply', hreply', hawaits⟩ :=
      hawaiting o n reader hw (s.coordinator.dispatch f.request).2
    obtain rfl : reply = reply' := Except.ok.inj (hreply.symm.trans hreply')
    obtain ⟨hsent, hlast, -⟩ := h.awaiting o n reader hw
    exact ⟨hsent, hlast, hawaits⟩
  | error e =>
    refine ⟨h.framed, fun hend => absurd rfl hend, by simp [hcount],
      h.ingested_append _ hnext hdecode, fun o n reader hw => ?_, hreturned _ rfl rfl rfl⟩
    obtain ⟨reply', hreply', -⟩ := hawaiting o n reader hw s.coordinator
    cases hreply.symm.trans hreply'

theorem InTune.serverRecv (h : InTune s) {d : Delivery} {stop : Bool}
    (hdrops : ¬ Drops s.loop d stop) : InTune (s.serverRecv d stop) := by
  unfold SourceConnection.serverRecv
  split
  · exact h
  rename_i loop hstep
  have hrunning := ClientLoop.not_ended_of_step hstep
  have hin := h.inStep hrunning
  have hin' : loop.position ≠ .ended → InStep s.sent loop := hin.step h.framed hstep hdrops
  rcases hin.dispatched_step h.framed hstep with
    hsame | ⟨full, f, after, hdecode, hsent, hdispatched, hbye⟩
  · rw [hsame, List.drop_length]
    refine ⟨h.framed, hin', h.count.trans (congrArg List.length hsame.symm), h.ingested,
      fun o n reader hw => ?_, h.returned⟩
    obtain ⟨hsent, hlast, hawaits⟩ := h.awaiting o n reader hw
    refine ⟨hsent, hlast, hawaits.imp_left fun ⟨hreader, hnil, hunanswered⟩ => ?_⟩
    exact ⟨hreader, hnil, fun _ => hunanswered hrunning⟩
  · rw [hdispatched, List.drop_left]
    refine h.handle hrunning ?_ hdecode hin' ?_ hbye
    · rw [hsent, h.count]
      simp
    · rw [hdispatched, h.count, List.length_append, List.length_singleton]

end Server

section Runs
variable {s : SourceConnection}

theorem inTune_start (c : Coordinator) : InTune { coordinator := c } where
  framed _ hf := absurd hf List.not_mem_nil
  inStep _ := inStep_start []
  count := rfl
  ingested _ _ hi := by simp at hi
  awaiting _ _ _ hw := nomatch hw
  returned _ hr := absurd hr List.not_mem_nil

/-- An orderly event keeps the connection in tune. -/
theorem InTune.next (h : InTune s) {e : ConnectionEvent} (horderly : Orderly s e) :
    InTune (connectionMachine.next s e) := by
  change InTune (if s.possible e then s.perform e else s)
  split
  · rename_i hpossible
    cases e with
    | sendHello hello failure => exact h.sendHello horderly failure
    | sendObservation o failure => exact h.sendObservation horderly.1 horderly.2
    | sendObservationFire o failure =>
      have hidle : s.waiting = none := by
        simp only [SourceConnection.possible, Bool.and_eq_true, Option.isNone_iff_eq_none]
          at hpossible
        exact hpossible.1
      exact h.sendObservationFire hidle horderly failure
    | recvAck => exact h.waiting fun o n reader hw => by cases hw
    | clientRecv d => exact h.clientRecv d
    | serverRecv d stop => exact h.serverRecv horderly
    | elsewhere op =>
      exact ⟨h.framed, h.inStep, h.count, h.ingested, h.awaiting, h.returned⟩
  · exact h

theorem InTune.run (h : InTune s) {events : List ConnectionEvent} (horderly : OrderlyRun s events) :
    InTune (connectionMachine.run s events) := by
  induction events generalizing s with
  | nil => exact h
  | cons e events ih => exact ih (h.next horderly.1) horderly.2

/-- In every orderly run each acknowledgement is that of its observation. -/
theorem acksMatch_of_orderlyRun (c : Coordinator) {events : List ConnectionEvent}
    (h : OrderlyRun { coordinator := c } events) :
    AcksMatch (connectionMachine.run { coordinator := c } events) :=
  ((inTune_start c).run h).returned

end Runs

section Examples

/-- A source registers; both frames come in two parts. -/
def registration : List ConnectionEvent :=
  [.sendHello {} none, .serverRecv (.data 4) false, .serverRecv (.data 92) false,
    .clientRecv (.data 4), .clientRecv (.data 18)]

/-- The server reads an observation frame. -/
def serverReads : List ConnectionEvent :=
  [.serverRecv (.data 4) false, .serverRecv (.data 116) false]

/-- An observation is sent and its acknowledgement read. -/
def acknowledgedOnce : List ConnectionEvent :=
  [registration, [.sendObservation {} none], serverReads,
    [.clientRecv (.data 4), .clientRecv (.data 18)]].flatten

theorem acksMatch_acknowledgedOnce : OrderlyRun { coordinator := {} } acknowledgedOnce ∧
    AcksMatch (connectionMachine.run { coordinator := {} } acknowledgedOnce) := by
  have horderly : OrderlyRun { coordinator := {} } acknowledgedOnce := by decide +kernel
  exact ⟨horderly, acksMatch_of_orderlyRun {} horderly⟩

/-- The first call times out before the server has answered. The same observation is sent again,
and that call reads the acknowledgement of the first. -/
def acknowledgedLate : List ConnectionEvent :=
  [registration, [.sendObservation {} none, .clientRecv .timeout], serverReads,
    [.sendObservation {} none], serverReads,
    [.clientRecv (.data 4), .clientRecv (.data 18)]].flatten

/-- The first observation was accepted and the second rejected as a duplicate of it. -/
theorem not_acksMatch_acknowledgedLate :
    ¬ AcksMatch (connectionMachine.run { coordinator := {} } acknowledgedLate) := by
  intro h
  have hrun : (connectionMachine.run { coordinator := {} } acknowledgedLate).returned.map
        (fun r => (r.position, r.result.toOption.map (·.payload.accepted))) =
          [(1, none), (2, some true)] ∧
      (connectionMachine.run { coordinator := {} } acknowledgedLate).ingested.map
        (Option.map (·.result.accepted)) = [none, some true, some false] := by
    decide +kernel
  obtain ⟨hreturned, hingested⟩ := hrun
  have hsecond : (2, some true) ∈ [(1, none), (2, some true)] :=
    List.mem_cons_of_mem _ List.mem_cons_self
  obtain ⟨r, hr, hview⟩ := List.mem_map.mp (hreturned ▸ hsecond)
  obtain ⟨hposition, haccepted⟩ := Prod.mk.inj hview
  cases hresult : r.result with
  | error e => simp [hresult, Except.toOption] at haccepted
  | ok ack =>
    obtain ⟨b, full, i, -, -, -, hi, -, -, hack⟩ := h r hr ack hresult
    rw [show r.position = 2 from hposition] at hi
    have hrejected := congrArg (fun l => l[2]?) hingested
    rw [List.getElem?_map, hi] at hrejected
    have hfalse : i.result.accepted = false := by simpa using hrejected
    have htrue : ack.payload.accepted = true := by simpa [hresult, Except.toOption] using haccepted
    rw [hack] at htrue
    exact Bool.false_ne_true (hfalse.symm.trans htrue)

end Examples
end ServingObservatory
