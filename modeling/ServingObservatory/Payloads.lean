import ServingObservatory.BinaryLanguage
import ServingObservatory.Coordinator

/-!
# The payloads of the protocol

A HELLO carries the authority of a source, an acknowledgement the decision on an observation
and a STATUS the figures of the coordinator. A payload is read whole: what its writer has
written is read back, and nothing may follow it.
-/
namespace ServingObservatory
open BigEndian Decoding BinaryWriter BinaryReader

/-- The decision is the raw code of an `AuthorityDecision`. -/
structure ObsAckPayload where
  accepted : Bool := false
  decision : UInt8 := 0
  acceptedTotal : UInt32 := 0
  reason : Str := []
  deriving DecidableEq

structure StatusPayload where
  health : Str := []
  onlineSources : UInt32 := 0
  observationsTotal : UInt32 := 0
  droppedStale : UInt32 := 0
  epoch : UInt64 := 0
  deriving DecidableEq

/-- A payload by the reader of its parts; `message` names it in the errors. -/
def decodePayload {α : Type} (message : Str) (m : StateM BinaryReader α) (b : Bytes) :
    Except Str α :=
  let (a, r) := m.run { unread := b }
  if r.failed then .error (lit "bad " ++ message ++ lit " payload: " ++ r.err)
  else if !(requireEnd.run r).1 then .error (message ++ lit " trailing garbage")
  else .ok a

def writeHello (h : HelloPayload) : BinaryWriter Unit := do
  writeId h.source.raw
  writeId h.worker.raw
  writeId h.boot.raw
  writeU64 h.srcGen
  writeU64 h.obsGen
  writeU64 h.epoch
  writeStr h.clockDomain
  writeStr h.role
  writeStr h.extra

def encodeHello (h : HelloPayload) : Except Str Bytes := ((writeHello h).run []).map Prod.snd

def readHello : StateM BinaryReader HelloPayload := do
  let source ← readId
  let worker ← readId
  let boot ← readId
  let srcGen ← rU64
  let obsGen ← rU64
  let epoch ← rU64
  let clockDomain ← readStr
  let role ← readStr
  let extra ← readStr
  return { source := ⟨source⟩, worker := ⟨worker⟩, boot := ⟨boot⟩, srcGen := srcGen,
           obsGen := obsGen, epoch := epoch, clockDomain := clockDomain, role := role,
           extra := extra }

def decodeHello (b : Bytes) : Except Str HelloPayload := decodePayload (lit "hello") readHello b

def writeObsAck (accepted : Bool) (decision : UInt8) (acceptedTotal : UInt32) (reason : Str) :
    BinaryWriter Unit := do
  writeU8 (if accepted then 1 else 0)
  writeU8 decision
  writeU32 acceptedTotal
  writeStr reason

def encodeObsAck (accepted : Bool) (decision : UInt8) (acceptedTotal : UInt32) (reason : Str) :
    Except Str Bytes := ((writeObsAck accepted decision acceptedTotal reason).run []).map Prod.snd

def readObsAck : StateM BinaryReader ObsAckPayload := do
  let accepted ← rU8
  let decision ← rU8
  let acceptedTotal ← rU32
  let reason ← readStr
  return { accepted := accepted != 0, decision := decision, acceptedTotal := acceptedTotal,
           reason := reason }

def decodeObsAck (b : Bytes) : Except Str ObsAckPayload :=
  decodePayload (lit "obs_ack") readObsAck b

def writeStatus (s : StatusPayload) : BinaryWriter Unit := do
  writeStr s.health
  writeU32 s.onlineSources
  writeU32 s.observationsTotal
  writeU32 s.droppedStale
  writeU64 s.epoch

def encodeStatus (s : StatusPayload) : Except Str Bytes := ((writeStatus s).run []).map Prod.snd

def readStatus : StateM BinaryReader StatusPayload := do
  let health ← readStr
  let onlineSources ← rU32
  let observationsTotal ← rU32
  let droppedStale ← rU32
  let epoch ← rU64
  return { health := health, onlineSources := onlineSources,
           observationsTotal := observationsTotal, droppedStale := droppedStale, epoch := epoch }

def decodeStatus (b : Bytes) : Except Str StatusPayload :=
  decodePayload (lit "status") readStatus b

/-- A payload that the reader of its parts covers as a whole. -/
theorem decodePayload_eq {α : Type} {m : StateM BinaryReader α} {L : Bytes → α → Prop}
    (hm : Reads input m L) (message : Str) {b : Bytes} {a : α} (h : L b a) :
    decodePayload message m b = .ok a := by
  have hstart : input.ok { unread := b } := rfl
  have hall : input.unread { unread := b } = b ++ [] := (List.append_nil _).symm
  obtain ⟨r, hrun, hok, hunread⟩ := hm.complete hstart h hall
  have hres : m.run { unread := b } = (a, r) := hrun
  have hend : (requireEnd.run r).1 = true := (requireEnd_iff r).mpr ⟨hok, hunread⟩
  have hfailed : r.failed = false := hok
  simp [decodePayload, hres, hend, hfailed]

theorem decodePayload_eq_ok_iff {α : Type} {m : StateM BinaryReader α} {L : Bytes → α → Prop}
    (hm : Reads input m L) (message : Str) (b : Bytes) (a : α) :
    decodePayload message m b = .ok a ↔ L b a := by
  refine ⟨fun h => ?_, decodePayload_eq hm message⟩
  cases hrun : m.run { unread := b } with
  | mk x r =>
    simp only [decodePayload, hrun] at h
    split_ifs at h with hfailed hend
    have hend := (requireEnd_iff r).mp (by simpa using hend)
    obtain ⟨-, bs, hL, hunread⟩ := hm.sound (a := x) (t := r) hrun hend.1
    have hall : b = bs ++ r.unread := hunread
    obtain rfl := Except.ok.inj h
    rwa [hall, hend.2, List.append_nil]

namespace HelloPayload

structure Fits (h : HelloPayload) : Prop where
  clockDomain : h.clockDomain.length < 2 ^ 32
  role : h.role.length < 2 ^ 32
  extra : h.extra.length < 2 ^ 32

def spell (h : HelloPayload) : Bytes :=
  h.source.raw.toBytes ++ (h.worker.raw.toBytes ++ (h.boot.raw.toBytes ++
    (bytes 8 h.srcGen.toNat ++ (bytes 8 h.obsGen.toNat ++ (bytes 8 h.epoch.toNat ++
      (prefixed h.clockDomain ++ (prefixed h.role ++ prefixed h.extra)))))))

theorem emits (h : HelloPayload) : Emits (writeHello h) h.Fits h.spell := by
  have hw : Emits (writeHello h) _ h.spell :=
    (writes_append h.source.raw.toBytes).emits.bind <|
    (writes_append h.worker.raw.toBytes).emits.bind <|
    (writes_append h.boot.raw.toBytes).emits.bind <| (writes_u64 h.srcGen).emits.bind <|
    (writes_u64 h.obsGen).emits.bind <| (writes_u64 h.epoch).emits.bind <|
    (emits_str h.clockDomain).bind <| (emits_str h.role).bind <| emits_str h.extra
  refine hw.congr ⟨fun ⟨_, _, _, _, _, _, hclock, hrole, hextra⟩ => ⟨hclock, hrole, hextra⟩,
    fun ⟨hclock, hrole, hextra⟩ => ?_⟩
  exact ⟨trivial, trivial, trivial, trivial, trivial, trivial, hclock, hrole, hextra⟩

theorem reads : Reads input readHello (Spelled Fits spell id) := by
  refine (reads_id.bind fun source => reads_id.bind fun worker =>
    reads_id.bind fun boot => reads_u64.bind fun srcGen => reads_u64.bind fun obsGen =>
    reads_u64.bind fun epoch => reads_prefixed.bind fun clockDomain =>
    reads_prefixed.bind fun role => reads_prefixed.bind_pure _).congr fun b a => ?_
  constructor
  · rintro ⟨source, -, _, rfl, worker, -, _, rfl, boot, -, _, rfl, srcGen, -, _, rfl, obsGen, -, _,
      rfl, epoch, -, _, rfl, clockDomain, hclock, _, rfl, role, hrole, _, rfl, extra, hextra, rfl,
      rfl⟩
    exact ⟨⟨⟨source⟩, ⟨worker⟩, ⟨boot⟩, srcGen, obsGen, epoch, clockDomain, role, extra⟩,
      ⟨hclock, hrole, hextra⟩, rfl, rfl⟩
  · rintro ⟨h, hfits, rfl, rfl⟩
    exact ⟨_, trivial, _, rfl, _, trivial, _, rfl, _, trivial, _, rfl, _, trivial, _, rfl, _,
      trivial, _, rfl, _, trivial, _, rfl, _, hfits.clockDomain, _, rfl, _, hfits.role, _, rfl, _,
      hfits.extra, rfl, rfl⟩

end HelloPayload

namespace StatusPayload

def Fits (s : StatusPayload) : Prop := s.health.length < 2 ^ 32

def spell (s : StatusPayload) : Bytes :=
  prefixed s.health ++ (bytes 4 s.onlineSources.toNat ++ (bytes 4 s.observationsTotal.toNat ++
    (bytes 4 s.droppedStale.toNat ++ bytes 8 s.epoch.toNat)))

theorem emits (s : StatusPayload) : Emits (writeStatus s) s.Fits s.spell := by
  have hw : Emits (writeStatus s) _ s.spell :=
    (emits_str s.health).bind <| (writes_u32 s.onlineSources).emits.bind <|
    (writes_u32 s.observationsTotal).emits.bind <| (writes_u32 s.droppedStale).emits.bind <|
    (writes_u64 s.epoch).emits
  exact hw.congr ⟨fun h => h.1, fun h => ⟨h, trivial, trivial, trivial, trivial⟩⟩

theorem reads : Reads input readStatus (Spelled Fits spell id) := by
  refine (reads_prefixed.bind fun health => reads_u32.bind fun onlineSources =>
    reads_u32.bind fun observationsTotal => reads_u32.bind fun droppedStale =>
    reads_u64.bind_pure _).congr fun b a => ?_
  constructor
  · rintro ⟨health, hhealth, _, rfl, online, -, _, rfl, total, -, _, rfl, stale, -, _, rfl, epoch,
      -, rfl, rfl⟩
    exact ⟨⟨health, online, total, stale, epoch⟩, hhealth, rfl, rfl⟩
  · rintro ⟨s, hfits, rfl, rfl⟩
    exact ⟨_, hfits, _, rfl, _, trivial, _, rfl, _, trivial, _, rfl, _, trivial, _, rfl, _,
      trivial, rfl, rfl⟩

end StatusPayload

/-- An acknowledgement with the byte that the reader compares with zero. -/
structure WireObsAck where
  accepted : UInt8
  decision : UInt8
  acceptedTotal : UInt32
  reason : Str

namespace WireObsAck

def Valid (w : WireObsAck) : Prop := w.reason.length < 2 ^ 32

def spell (w : WireObsAck) : Bytes :=
  [w.accepted] ++ ([w.decision] ++ (bytes 4 w.acceptedTotal.toNat ++ prefixed w.reason))

def payload (w : WireObsAck) : ObsAckPayload :=
  { accepted := w.accepted != 0, decision := w.decision, acceptedTotal := w.acceptedTotal,
    reason := w.reason }

/-- The form that the writer gives an acknowledgement. -/
def ofPayload (a : ObsAckPayload) : WireObsAck :=
  ⟨if a.accepted then 1 else 0, a.decision, a.acceptedTotal, a.reason⟩

@[simp] theorem payload_ofPayload (a : ObsAckPayload) : (ofPayload a).payload = a := by
  obtain ⟨accepted, _, _, _⟩ := a
  cases accepted <;> rfl

theorem emits (a : ObsAckPayload) : Emits (writeObsAck a.accepted a.decision a.acceptedTotal
    a.reason) (ofPayload a).Valid (ofPayload a).spell := by
  have hw : Emits (writeObsAck a.accepted a.decision a.acceptedTotal a.reason) _
      (ofPayload a).spell :=
    (writes_u8 (if a.accepted then 1 else 0)).emits.bind <| (writes_u8 a.decision).emits.bind <|
    (writes_u32 a.acceptedTotal).emits.bind <| emits_str a.reason
  exact hw.congr ⟨fun h => h.2.2.2, fun h => ⟨trivial, trivial, trivial, h⟩⟩

theorem reads : Reads input readObsAck (Spelled Valid spell payload) := by
  refine (reads_u8.bind fun accepted => reads_u8.bind fun decision =>
    reads_u32.bind fun acceptedTotal => reads_prefixed.bind_pure _).congr fun b a => ?_
  constructor
  · rintro ⟨accepted, -, _, rfl, decision, -, _, rfl, total, -, _, rfl, reason, hreason, rfl, rfl⟩
    exact ⟨⟨accepted, decision, total, reason⟩, hreason, rfl, rfl⟩
  · rintro ⟨w, hvalid, rfl, rfl⟩
    exact ⟨_, trivial, _, rfl, _, trivial, _, rfl, _, trivial, _, rfl, _, hvalid, rfl, rfl⟩

end WireObsAck

section RoundTrip
variable {b : Bytes}

theorem decodeHello_encodeHello {h : HelloPayload} (hb : encodeHello h = .ok b) :
    decodeHello b = .ok h := by
  obtain ⟨hfits, rfl⟩ := (h.emits.run_eq_ok_iff b).mp hb
  exact decodePayload_eq HelloPayload.reads _ ⟨h, hfits, rfl, rfl⟩

/-- An acknowledgement is encoded when the length of its reason fits, and it is read back. -/
theorem encodeObsAck_ok {a : ObsAckPayload} (h : a.reason.length < 2 ^ 32) :
    ∃ b, encodeObsAck a.accepted a.decision a.acceptedTotal a.reason = .ok b ∧
      b.length = 10 + a.reason.length ∧ decodeObsAck b = .ok a := by
  have hvalid : (WireObsAck.ofPayload a).Valid := h
  refine ⟨_, ((WireObsAck.emits a).run_eq_ok_iff _).mpr ⟨hvalid, rfl⟩, ?_, ?_⟩
  · simp [WireObsAck.spell, WireObsAck.ofPayload, prefixed]
    omega
  · exact decodePayload_eq WireObsAck.reads _
      ⟨_, hvalid, rfl, (WireObsAck.payload_ofPayload a).symm⟩

theorem decodeStatus_encodeStatus {s : StatusPayload} (hb : encodeStatus s = .ok b) :
    decodeStatus b = .ok s := by
  obtain ⟨hfits, rfl⟩ := (s.emits.run_eq_ok_iff b).mp hb
  exact decodePayload_eq StatusPayload.reads _ ⟨s, hfits, rfl, rfl⟩

end RoundTrip
end ServingObservatory
