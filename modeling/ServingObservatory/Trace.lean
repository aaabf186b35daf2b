import ServingObservatory.Json
import ServingObservatory.Names
import ServingObservatory.OrderedMap

/-!
# Request traces

The observations of one request are sorted by time, receive clock first, then by
sequence number and identity. From the sorted evidence come the identity snapshot,
the timeline, the phase intervals and the outcome.
-/
namespace ServingObservatory
open Std

inductive Phase
  | arrival | admission | queue | batchWait | dispatch | transfer | prefill | firstToken
  | decode | speculation | retry | recovery | completion | total
  deriving DecidableEq, Repr

namespace Phase

/-- `phase_name`. -/
def name : Phase → Str
  | arrival => lit "arrival"
  | admission => lit "admission"
  | queue => lit "queue"
  | batchWait => lit "batch_wait"
  | dispatch => lit "dispatch"
  | transfer => lit "transfer"
  | prefill => lit "prefill"
  | firstToken => lit "first_token"
  | decode => lit "decode"
  | speculation => lit "speculation"
  | retry => lit "retry"
  | recovery => lit "recovery"
  | completion => lit "completion"
  | total => lit "total"

/-- The slots of the phase array in order. -/
def all : List Phase := [arrival, admission, queue, batchWait, dispatch, transfer, prefill,
  firstToken, decode, speculation, retry, recovery, completion, total]

theorem mem_all (p : Phase) : p ∈ all := by cases p <;> decide

end Phase

/-- A point interval has equal ends. A slot that was never filled is not present. -/
structure PhaseInterval where
  phase : Phase := .total
  present : Bool := false
  start : UInt64 := 0
  «end» : UInt64 := 0
  provenance : Provenance := .unknown
  source : Str := []
  detail : Str := []
  deriving DecidableEq

/-- `std::array<PhaseInterval, 14>` by phase. -/
abbrev PhaseTable := Phase → PhaseInterval

/-- The slots of a new trace. -/
def PhaseTable.empty : PhaseTable := fun _ => {}

/-- Fills the slot of a phase, over what it held. -/
def PhaseTable.addPhase (t : PhaseTable) (p : Phase) (start «end» : UInt64) (prov : Provenance)
    (source detail : Str) : PhaseTable :=
  Function.update t p
    { phase := p, present := true, start := start, «end» := «end», provenance := prov,
      source := source, detail := detail }

structure TraceEvent where
  ordinal : UInt32 := 0
  type : ObsType := .unknown
  ts : UInt64 := 0
  hasTs : Bool := false
  provenance : Provenance := .unknown
  source : SourceId := {}
  worker : WorkerId := {}
  boot : WorkerBootId := {}
  srcGen : UInt64 := 0
  obsGen : UInt64 := 0
  epoch : UInt64 := 0
  seq : UInt64 := 0
  label : Str := []
  fields : ExtTreeMap Str FieldValue := ∅

structure RequestTrace where
  traceId : TraceId := {}
  requestId : RequestId := {}
  tenant : TenantId := {}
  workload : WorkloadId := {}
  model : ModelId := {}
  modelRev : ModelRevisionId := {}
  adapter : AdapterId := {}
  evidence : List Observation := []
  timeline : List TraceEvent := []
  phases : PhaseTable := PhaseTable.empty
  outcome : Outcome := .unknown
  terminalReason : Str := []
  minEpoch : UInt64 := 0
  maxEpoch : UInt64 := 0
  spansMultipleEpochs : Bool := false
  boots : List WorkerBootId := []
  srcGens : List UInt64 := []
  obsGens : List UInt64 := []

def RequestTrace.getPhase (t : RequestTrace) (p : Phase) : PhaseInterval := t.phases p

structure TimedObs where
  ts : UInt64 := 0
  inRecvDomain : Bool := false
  deriving DecidableEq

/-- The receive timestamp, else the source timestamp, else zero. -/
def obsTime (o : Observation) : TimedObs :=
  if o.hasRecvTs then { ts := o.recvTs, inRecvDomain := true }
  else if o.hasObsTs then { ts := o.obsTs, inRecvDomain := false }
  else { ts := 0, inRecvDomain := false }

/-- The comparison of the evidence sort. -/
def traceLt (a b : Observation) : Bool :=
  let ta := obsTime a
  let tb := obsTime b
  if ta.ts ≠ tb.ts then ta.ts < tb.ts
  else if ta.inRecvDomain ≠ tb.inRecvDomain then ta.inRecvDomain && !tb.inRecvDomain
  else if a.seq ≠ b.seq then a.seq < b.seq
  else a.id.raw.lt b.id.raw

section Selection
variable (v : List Observation) (t : ObsType)

def firstObs : Option Observation := v.find? fun o => o.type == t

def lastObs : Option Observation := v.reverse.find? fun o => o.type == t

def countObs : UInt64 := v.foldl (fun c o => if o.type == t then c + 1 else c) 0

end Selection

/-- A list of first occurrences. -/
def pushNew {α : Type} [BEq α] (l : List α) (a : α) : List α := if l.contains a then l else l ++ [a]

/-- The first identity that is not null. -/
def orId {Tag : Type} (i : Id Tag) (v : Id128) : Id Tag := if i.isNull then ⟨v⟩ else i

/-- What one observation adds to the identity snapshot and the authority metadata. -/
def RequestTrace.note (tr : RequestTrace) (o : Observation) : RequestTrace :=
  { tr with
    tenant := orId tr.tenant (o.idField FieldKeys.tenantId)
    workload := orId tr.workload (o.idField FieldKeys.workloadId)
    model := orId tr.model (o.idField FieldKeys.modelId)
    modelRev := orId tr.modelRev (o.idField FieldKeys.modelRevId)
    adapter := orId tr.adapter (o.idField FieldKeys.adapterId)
    boots := pushNew tr.boots o.boot
    srcGens := pushNew tr.srcGens o.srcGen
    obsGens := pushNew tr.obsGens o.obsGen
    minEpoch := if tr.minEpoch == 0 || o.epoch < tr.minEpoch then o.epoch else tr.minEpoch
    maxEpoch := if o.epoch > tr.maxEpoch then o.epoch else tr.maxEpoch }

/-- The timeline event of the observation at an index; ordinals have 32 bits. -/
def traceEvent (o : Observation) (i : ℕ) : TraceEvent :=
  { ordinal := UInt32.ofNat i, type := o.type, ts := (obsTime o).ts, hasTs := (obsTime o).ts != 0,
    provenance := o.provenance, source := o.source, worker := o.worker, boot := o.boot,
    srcGen := o.srcGen, obsGen := o.obsGen, epoch := o.epoch, seq := o.seq, label := o.type.name,
    fields := o.fields }

def timelineOf (obs : List Observation) : List TraceEvent :=
  obs.zipIdx.map fun p => traceEvent p.1 p.2

/-- The time of an observation that may be missing. -/
def tdom (o : Option Observation) : TimedObs :=
  match o with
  | some o => obsTime o
  | none => {}

/-- Measured when both ends are on the receive clock. -/
def spanProvenance (s e : TimedObs) : Provenance :=
  if s.inRecvDomain && e.inRecvDomain then .measured else .reconstructed

namespace PhaseTable

/-- A point phase at an observation with a time. -/
def addMoment (t : PhaseTable) (p : Phase) (o : Option Observation) (detail : Str) : PhaseTable :=
  match o with
  | some x =>
    if (obsTime x).ts ≠ 0 then
      t.addPhase p (obsTime x).ts (obsTime x).ts x.provenance x.source.toHex detail
    else t
  | none => t

/-- A phase from one observation to another, both with a time. -/
def addSpan (t : PhaseTable) (p : Phase) (first last : Option Observation) (detail : Str) :
    PhaseTable :=
  match first, last with
  | some x, some y =>
    if (obsTime x).ts ≠ 0 ∧ (obsTime y).ts ≠ 0 then
      t.addPhase p (obsTime x).ts (obsTime y).ts (spanProvenance (obsTime x) (obsTime y))
        x.source.toHex detail
    else t
  | _, _ => t

/-- The arrival at a time that was chosen before, attributed to the request if any. -/
def addArrival (t : PhaseTable) (a : TimedObs) (req : Option Observation) : PhaseTable :=
  if a.ts ≠ 0 then
    match req with
    | some r => t.addPhase .arrival a.ts a.ts r.provenance r.source.toHex (lit "arrival")
    | none => t.addPhase .arrival a.ts a.ts .reconstructed [] (lit "arrival")
  else t

/-- From the forming of a batch, else its sealing, to the dispatch. Only the dispatch
needs a time. -/
def addBatchWait (t : PhaseTable) (bf bs disp : Option Observation) : PhaseTable :=
  match bf <|> bs, disp with
  | some x, some d =>
    if (obsTime d).ts ≠ 0 then
      t.addPhase .batchWait (obsTime x).ts (obsTime d).ts
        (spanProvenance (obsTime x) (obsTime d)) x.source.toHex (lit "batch wait")
    else t
  | _, _ => t

/-- From the dispatch to the start of prefill, else of decoding, but not backwards. -/
def addDispatch (t : PhaseTable) (disp pfS dsStart : Option Observation) : PhaseTable :=
  match disp with
  | some d =>
    if (obsTime d).ts ≠ 0 then
      let s := obsTime d
      let e := tdom pfS
      let e := if e.ts = 0 then tdom dsStart else e
      let e := if e.ts < s.ts then { e with ts := s.ts } else e
      t.addPhase .dispatch s.ts e.ts (spanProvenance s e) d.source.toHex
        (lit "dispatch -> start of execution")
    else t
  | none => t

/-- The first token and the decoding, when both ends of decoding have a time. -/
def addTokens (t : PhaseTable) (pe : TimedObs) (dsStart dsEnd : Option Observation)
    (steps : UInt64) : PhaseTable :=
  match dsStart, dsEnd with
  | some x, some y =>
    let dss := obsTime x
    let dse := obsTime y
    if dss.ts ≠ 0 ∧ dse.ts ≠ 0 then
      let ftEnd := dse
      let ftBase := if pe.ts ≠ 0 then pe else dss
      let ftEnd := if ftEnd.ts < ftBase.ts then dss else ftEnd
      let t := t.addPhase .firstToken ftBase.ts ftEnd.ts .reconstructed x.source.toHex
        (lit "first token")
      t.addPhase .decode dss.ts dse.ts (spanProvenance dss dse) x.source.toHex
        (lit "decode (" ++ decimal steps.toNat ++ lit " steps)")
    else t
  | _, _ => t

/-- From the arrival to the completion, else to the last evidence, but not backwards. -/
def addTotal (t : PhaseTable) (a c : TimedObs) (obs : List Observation) : PhaseTable :=
  if a.ts ≠ 0 then
    let last := if c.ts ≠ 0 then c else if obs.isEmpty then a else tdom obs.getLast?
    let last := if last.ts < a.ts then { last with ts := a.ts } else last
    t.addPhase .total a.ts last.ts .reconstructed [] (lit "total")
  else t

end PhaseTable

/-- The time of arrival: that of the request, else of queueing, else of the first evidence. -/
def arrivalTime (obs : List Observation) : TimedObs :=
  let a := tdom (firstObs obs .request)
  let a := if a.ts = 0 then tdom (firstObs obs .queueEnter) else a
  if a.ts = 0 ∧ !obs.isEmpty then tdom obs.head? else a

/-- The time of completion, else that of the last evidence. -/
def completionTime (obs : List Observation) : TimedObs :=
  let c := tdom (lastObs obs .completion)
  if c.ts = 0 ∧ !obs.isEmpty then tdom obs.getLast? else c

/-- The phases of sorted evidence, in the order in which they are added. -/
def extractPhases (obs : List Observation) : PhaseTable :=
  let a := arrivalTime obs
  let pfS := firstObs obs .prefillStart
  let pfE := lastObs obs .prefillEnd
  let dsStart := firstObs obs .decodeStepStart
  let dsEnd := lastObs obs .decodeStepEnd
  let disp := firstObs obs .dispatch
  PhaseTable.empty
    |>.addArrival a (firstObs obs .request)
    |>.addMoment .admission (firstObs obs .admission) (lit "admission")
    |>.addSpan .queue (firstObs obs .queueEnter) (lastObs obs .queueLeave)
        (lit "queue residence (" ++ decimal (countObs obs .queueEnter).toNat ++ lit " enter)")
    |>.addBatchWait (firstObs obs .batchForm) (firstObs obs .batchSeal) disp
    |>.addDispatch disp pfS dsStart
    |>.addSpan .transfer (firstObs obs .transferStart) (lastObs obs .transferEnd) (lit "transfer")
    |>.addSpan .prefill pfS pfE (lit "prefill")
    |>.addTokens (tdom pfE) dsStart dsEnd (countObs obs .decodeStepStart)
    |>.addSpan .speculation (firstObs obs .speculationStart) (lastObs obs .speculationVerify)
        (lit "speculation")
    |>.addMoment .retry (firstObs obs .retry)
        (lit "retry (" ++ decimal (countObs obs .retry).toNat ++ lit " events)")
    |>.addMoment .recovery (firstObs obs .recovery) (lit "recovery")
    |>.addMoment .completion (lastObs obs .completion) (lit "completion")
    |>.addTotal a (completionTime obs) obs

/-- The outcome and its reason: those of a completion, else of a cancellation or failure. -/
def outcomeOf (obs : List Observation) : Outcome × Str :=
  let comp := lastObs obs .completion
  let (outcome, reason) :=
    match comp, firstObs obs .cancel, firstObs obs .failure with
    | some c, _, _ => (Outcome.fromCode (c.strField FieldKeys.outcome), c.strField FieldKeys.reason)
    | none, some c, _ => (.cancelled, c.strField FieldKeys.reason)
    | none, none, some f => (.failed, f.strField FieldKeys.reason)
    | none, none, none => (.unknown, [])
  if outcome = .unknown then
    if countObs obs .failure > 0 ∧ comp.isNone then (.failed, reason)
    else if comp.isSome then (.completed, reason)
    else (outcome, reason)
  else (outcome, reason)

def reconstructTrace [Platform] (obsIn : List Observation) (requestId : RequestId) : RequestTrace :=
  let obs := sorter.sort traceLt obsIn
  let tr : RequestTrace :=
    { requestId := requestId, traceId := ⟨Id128.derive 0x5154 requestId.raw.toBytes⟩,
      evidence := obs }
  let tr := obs.foldl RequestTrace.note tr
  { tr with
    spansMultipleEpochs := tr.minEpoch != tr.maxEpoch
    timeline := timelineOf obs
    phases := extractPhases obs
    outcome := (outcomeOf obs).1
    terminalReason := (outcomeOf obs).2 }

/-- `end - start`, or zero for an interval that runs backwards. -/
def PhaseInterval.duration (p : PhaseInterval) : UInt64 :=
  if p.end ≥ p.start then p.end - p.start else 0

/-- Sets a member for an identity that is not null. -/
def Json.setId {Tag : Type} (j : Json) (key : Str) (v : Id Tag) : Json :=
  if v.isNull then j else j.set key (.string v.toHex)

def TraceEvent.toJson (e : TraceEvent) : Json :=
  (Json.object []).setAll
    [(lit "ordinal", .uint e.ordinal.toUInt64), (lit "kind", .string e.type.name),
      (lit "ts", .uint e.ts), (lit "has_ts", .bool e.hasTs),
      (lit "provenance", .string e.provenance.name), (lit "source", .string e.source.toHex),
      (lit "worker", .string e.worker.toHex), (lit "boot", .string e.boot.toHex),
      (lit "src_gen", .uint e.srcGen), (lit "obs_gen", .uint e.obsGen), (lit "epoch", .uint e.epoch),
      (lit "seq", .uint e.seq), (lit "label", .string e.label)]

def PhaseInterval.toJson (p : PhaseInterval) : Json :=
  let o := (Json.object []).setAll
    [(lit "start", .uint p.start), (lit "end", .uint p.end), (lit "duration_ns", .uint p.duration),
      (lit "provenance", .string p.provenance.name)]
  let o := if p.source.isEmpty then o else o.set (lit "source") (.string p.source)
  o.set (lit "detail") (.string p.detail)

def phasesToJson (t : PhaseTable) : Json :=
  Phase.all.foldl (fun ph p => if (t p).present then ph.set (t p).phase.name (t p).toJson else ph)
    (.object [])

def traceToJson (t : RequestTrace) : Json :=
  (Json.object [])
    |>.set (lit "trace_id") (.string t.traceId.toHex)
    |>.set (lit "request_id") (.string t.requestId.toHex)
    |>.setId (lit "tenant_id") t.tenant
    |>.setId (lit "workload_id") t.workload
    |>.setId (lit "model_id") t.model
    |>.setId (lit "model_rev_id") t.modelRev
    |>.setId (lit "adapter_id") t.adapter
    |>.setAll [(lit "outcome", .string t.outcome.name),
        (lit "terminal_reason", .string t.terminalReason), (lit "epoch_min", .uint t.minEpoch),
        (lit "epoch_max", .uint t.maxEpoch),
        (lit "spans_multiple_epochs", .bool t.spansMultipleEpochs),
        (lit "timeline", .array (t.timeline.map TraceEvent.toJson)),
        (lit "phases", phasesToJson t.phases),
        (lit "boots", .array (t.boots.map fun b => .string b.toHex)),
        (lit "src_gens", .array (t.srcGens.map .uint)),
        (lit "obs_gens", .array (t.obsGens.map .uint))]

end ServingObservatory
