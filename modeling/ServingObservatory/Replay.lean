import ServingObservatory.Explanation
import ServingObservatory.ObservationCodec
import ServingObservatory.Sha256

/-!
# Replay

Evidence is digested in identity order, grouped by request and reconstructed into one
trace for each request. The digests cover the evidence, the traces, the explanations
and a snapshot of aggregates. Writing a part that does not fit its length throws.
-/
namespace ServingObservatory
open Std BinaryWriter

structure ReplayResult where
  obsCount : UInt64 := 0
  requestTraceCount : UInt64 := 0
  evidenceDigest : Digest
  traceDigest : Digest
  explanationDigest : Digest
  aggregateDigest : Digest
  traces : List RequestTrace := []
  ungroupedMetrics : TailMetrics := {}

/-- The sums of the aggregate snapshot. -/
structure Aggregate where
  retries : UInt64 := 0
  kvHits : UInt64 := 0
  kvMisses : UInt64 := 0
  bytesH2d : UInt64 := 0
  totalLatency : UInt64 := 0
  gpu : UInt64 := 0

/-- Runs a writer on an empty buffer. -/
def writtenBytes (m : BinaryWriter Unit) : Except Str Bytes := (m.run []).map Prod.snd

/-- The observations by request, each group in the order of arrival. -/
def groupByRequest (observations : List Observation) : ExtTreeMap RequestId (List Observation) :=
  observations.foldl (fun groups o =>
    if !o.requestId.isNull then
      groups.insert o.requestId (groups.getD o.requestId [] ++ [o])
    else groups) ∅

/-- The latency of a trace by its total phase, which is a difference modulo 2^64. -/
def totalLatencyOf (t : RequestTrace) : UInt64 :=
  if (t.getPhase .total).present then (t.getPhase .total).end - (t.getPhase .total).start else 0

section Replaying
variable [Platform]

/-- The comparison of the evidence digest. -/
def idLt (a b : Observation) : Bool := a.id.raw.lt b.id.raw

/-- A list of entries, each the payload of an observation behind its length. -/
def writeObsEntry (o : Observation) : BinaryWriter Unit := do
  let payload ← (encodeObservationPayload o : Except Str Bytes)
  writeBytes payload

/-- The bytes that the evidence digest hashes. -/
def evidenceBytes (observations : List Observation) : Except Str Bytes :=
  let sorted := sorter.sort idLt observations
  writtenBytes do
    writeU64 (UInt64.ofNat sorted.length)
    sorted.forM writeObsEntry

def evidenceDigestOf (observations : List Observation) : Except Str Digest :=
  (evidenceBytes observations).map Sha256.hash

def canonicalTrace (t : RequestTrace) : Str := (traceToJson t).toCanonical

def canonicalExplanation (t : RequestTrace) : Str := (explainRequest t).toJson.toCanonical

/-- The GPU nanoseconds that the aggregate takes from an observation. -/
def gpuNs (o : Observation) : UInt64 :=
  if o.u64Field FieldKeys.gpuMs > 0 then
    Platform.toU64 (Platform.mul (o.f64Field FieldKeys.gpuMs) F64.million)
  else 0

def Aggregate.addObservation (g : Aggregate) (o : Observation) : Aggregate :=
  let g := if o.type = .retry then { g with retries := g.retries + 1 }
    else if o.type = .kvHit then { g with kvHits := g.kvHits + 1 }
    else if o.type = .kvMiss then { g with kvMisses := g.kvMisses + 1 }
    else g
  { g with bytesH2d := g.bytesH2d + o.u64Field FieldKeys.bytesH2D, gpu := g.gpu + gpuNs o }

/-- Speculation counts are added to the retries. -/
def Aggregate.addTrace (g : Aggregate) (t : RequestTrace) : Aggregate :=
  let a := attributeResources t
  let g := { g with retries := g.retries + (a.specProposed + a.specAccepted + a.specRejected) }
  let g := t.evidence.foldl Aggregate.addObservation g
  { g with totalLatency := g.totalLatency + a.totalLatency }

def aggregateJson (obsCount requestTraceCount : UInt64) (metrics : TailMetrics) (g : Aggregate) :
    Json :=
  (Json.object []).setAll
    [(lit "obs_count", .uint obsCount), (lit "request_trace_count", .uint requestTraceCount),
      (lit "metrics", metrics.toJson), (lit "retry_events", .uint g.retries),
      (lit "kv_hits", .uint g.kvHits), (lit "kv_misses", .uint g.kvMisses),
      (lit "bytes_h2d", .uint g.bytesH2d), (lit "total_latency_ns", .uint g.totalLatency),
      (lit "gpu_exec_ns", .uint g.gpu)]

/-- One trace for each request, in request order. -/
def tracesOf (observations : List Observation) : List RequestTrace :=
  (groupByRequest observations).toList.map fun p => reconstructTrace p.2 p.1

/-- The part of replay that follows the evidence digest, from the counts and the traces. -/
def replayTraces (obsCount : UInt64) (evidenceDigest : Digest) (traces : List RequestTrace) :
    Except Str ReplayResult := do
  let tw ← writtenBytes (traces.forM fun t => writeBytes (canonicalTrace t))
  let xw ← writtenBytes (traces.forM fun t => writeBytes (canonicalExplanation t))
  let requestTraceCount := UInt64.ofNat traces.length
  let metrics := tailMetrics (traces.map totalLatencyOf)
  let g := traces.foldl Aggregate.addTrace {}
  return {
    obsCount := obsCount
    requestTraceCount := requestTraceCount
    evidenceDigest := evidenceDigest
    traceDigest := Sha256.hash tw
    explanationDigest := Sha256.hash xw
    aggregateDigest :=
      Sha256.hash (aggregateJson obsCount requestTraceCount metrics g).toCanonical
    traces := traces
    ungroupedMetrics := metrics }

def replay (observations : List Observation) : Except Str ReplayResult := do
  let evidenceDigest ← evidenceDigestOf observations
  replayTraces (UInt64.ofNat observations.length) evidenceDigest (tracesOf observations)

end Replaying
end ServingObservatory
