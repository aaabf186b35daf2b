import ServingObservatory.FrameReading
import ServingObservatory.ObservationRoundTrip
import ServingObservatory.Payloads

/-!
# What the server does with a frame

The dispatch reads the payload of a frame, hands it to the coordinator and answers with one
frame. A payload that cannot be read is passed over without an answer. The client reads an
answer as an acknowledgement, whatever its type is.
-/
namespace ServingObservatory

/-- What a frame asks for. -/
inductive ClientRequest
  | register (h : HelloPayload)
  | ingest (o : Observation)
  | status
  | ping
  | bye
  | nothing

/-- The request of a frame; a payload that cannot be read asks for nothing. -/
def Frame.request (f : Frame) : ClientRequest :=
  match f.type with
  | .hello =>
    match decodeHello f.payload with
    | .ok h => .register h
    | .error _ => .nothing
  | .obs =>
    match readObservationPayload f.payload with
    | .ok o => .ingest o
    | .error _ => .nothing
  | .status => .status
  | .ping => .ping
  | .bye => .bye
  | .helloAck | .obsAck | .pong => .nothing

namespace Coordinator

def sourceCount (c : Coordinator) : ℕ := c.registry.byKey.size

/-- The acknowledgement of a registration. -/
def helloAck (c : Coordinator) : Except Str SourceAuthority → Except Str Bytes
  | .ok _ => encodeObsAck true AuthorityDecision.accepted.code c.acceptedTotal []
  | .error e => encodeObsAck false AuthorityDecision.accepted.code 0 e

def statusPayload (c : Coordinator) : StatusPayload :=
  { health := lit "healthy", onlineSources := UInt32.ofNat c.sourceCount,
    observationsTotal := c.acceptedTotal, droppedStale := c.staleTotal, epoch := c.epoch }

/-- The frame that answers a request, if any, and the coordinator that the request leaves. An
error is the exception of a writer. -/
def dispatch (c : Coordinator) : ClientRequest → Except Str (Option Bytes) × Coordinator
  | .register h =>
    let (auth, c) := c.registerHello h
    (do return some (← Frame.encode .helloAck (← c.helloAck auth)), c)
  | .ingest o =>
    let (ir, c) := c.ingest o
    (do
      let ack ← encodeObsAck ir.accepted ir.decision ir.acceptedTotal ir.reason
      return some (← Frame.encode .obsAck ack), c)
  | .status => (do return some (← Frame.encode .status (← encodeStatus c.statusPayload)), c)
  | .ping => (do return some (← Frame.encode .pong []), c)
  | .bye | .nothing => (.ok none, c)

end Coordinator

/-- The acknowledgement in what `recv_frame` returns. -/
def ackOf : Except Str (Option Bytes) → Except Str ObsAckPayload
  | .ok (some full) =>
    match Frame.decode full with
    | some (.ok f) => decodeObsAck f.payload
    | _ => .error (lit "ack decode failed")
  | _ => .error (lit "no ack frame")

/-- A result as it is acknowledged. -/
def IngestResult.ack (r : IngestResult) : ObsAckPayload :=
  { accepted := r.accepted, decision := r.decision, acceptedTotal := r.acceptedTotal,
    reason := r.reason }

section ReasonLength
variable (s t : String)

theorem length_lit : (lit s).length = s.length := by
  rw [lit, List.length_map, String.length_toList]

theorem length_decimal_le (n : UInt64) : (decimal n.toNat).length ≤ 20 := by
  rw [decimal, length_lit]
  exact Nat.repr_length n.toNat 20 (by decide) (n.toNat_lt.trans (by decide))

theorem Id128.length_toHex (v : Id128) : v.toHex.length = 32 := by
  simp [toHex, List.length_flatMap]

/-- A reason that compares two figures. -/
theorem length_figures_le (h : s.length + t.length ≤ 60) (m n : UInt64) :
    (lit s ++ decimal m.toNat ++ lit t ++ decimal n.toNat).length ≤ 100 := by
  have hm := length_decimal_le m
  have hn := length_decimal_le n
  simp only [List.length_append, length_lit]
  omega

/-- A reason that names two identities. -/
theorem length_identities_le (h : s.length + t.length ≤ 36) (v w : Id128) :
    (lit s ++ v.toHex ++ lit t ++ w.toHex).length ≤ 100 := by
  simp only [List.length_append, length_lit, Id128.length_toHex]
  omega

theorem SourceAuthority.length_rejection_le (a : SourceAuthority) (o : Observation) :
    ∀ d ∈ a.rejection o, d.2.length ≤ 100 := by
  have hsequence := Nat.add_le_add_left (length_decimal_le o.seq) "duplicate sequence ".length
  unfold rejection
  refine forall_mem_ite (length_figures_le _ _ (by decide) _ _) ?_
  refine forall_mem_ite (length_figures_le _ _ (by decide) _ _) ?_
  refine forall_mem_ite ((length_lit _).trans_le (by decide)) ?_
  refine forall_mem_ite (length_figures_le _ _ (by decide) _ _) ?_
  refine forall_mem_ite ((length_lit _).trans_le (by decide)) ?_
  refine forall_mem_ite (length_identities_le _ _ (by decide) _ _) ?_
  refine forall_mem_ite (length_figures_le _ _ (by decide) _ _) ?_
  refine forall_mem_ite ?_ fun d hd => by cases hd
  rw [List.length_append, length_lit]
  exact hsequence.trans (by decide)

theorem SourceRegistry.length_validate_le (r : SourceRegistry) (o : Observation) :
    (r.validate o).1.2.length ≤ 120 := by
  cases hslot : r.byKey[keyOf o.source o.worker]? with
  | none =>
    have hids := length_identities_le "source " " worker " (by decide) o.source.raw o.worker.raw
    simp only [validate, hslot]
    rw [List.length_append, length_lit]
    exact add_le_add hids (by decide : " not registered".length ≤ 20)
  | some a =>
    cases hrej : a.rejection o with
    | none => simp [validate, hslot, hrej]
    | some d =>
      simp only [validate, hslot, hrej]
      exact (a.length_rejection_le o d hrej).trans (by decide)

/-- The reasons of the coordinator are short. -/
theorem Coordinator.length_reason_le (c : Coordinator) (o : Observation) :
    (c.ingest o).1.reason.length ≤ 120 := by
  unfold Coordinator.ingest
  split
  · rw [List.length_append, length_lit, Id.toHex, Id128.length_toHex]
    decide
  · split
    rename_i d reason registry hval
    have hreason := c.registry.length_validate_le o
    rw [hval] at hreason
    split
    · exact hreason
    · exact Nat.zero_le _

end ReasonLength

/-- An ingested observation is answered by one frame, in which the client reads the result. -/
theorem Coordinator.dispatch_ingest (c : Coordinator) (o : Observation) :
    ∃ full, c.dispatch (.ingest o) = (.ok (some full), (c.ingest o).2) ∧ Framed full ∧
      ackOf (.ok (some full)) = .ok (c.ingest o).1.ack := by
  have hreason := c.length_reason_le o
  obtain ⟨b, hb, hlen, hread⟩ :=
    encodeObsAck_ok (a := (c.ingest o).1.ack) (hreason.trans_lt (by decide))
  have hsize : b.length ≤ 130 := hlen.trans_le (Nat.add_le_add_left hreason 10)
  have hencode := Frame.encode_eq .obsAck b kProtocolVersion
  refine ⟨_, Prod.ext ?_ rfl, framed_encode (by omega) hencode, ?_⟩
  · exact Decoding.bind_eq_ok.mpr ⟨b, hb, Decoding.bind_eq_ok.mpr ⟨_, hencode, rfl⟩⟩
  · have hdecode := (Frame.decode_eq_ok_iff _ { type := .obsAck, payload := b }).mpr
      ⟨rfl, by unfold Frame.maxLength; change b.length + 8 ≤ _; omega, hencode⟩
    simp only [ackOf, hdecode, hread]

end ServingObservatory
