import ServingObservatory.Trace

/-!
# Resource attribution

What a trace shows of times, bytes, cache hits, speculation and tokens. Every metric
is marked with a provenance and with whether it is available.
-/
namespace ServingObservatory
open Std

structure ResourceAttribution where
  queueTime : UInt64 := 0
  batchWait : UInt64 := 0
  dispatchDelay : UInt64 := 0
  transferTime : UInt64 := 0
  prefillTime : UInt64 := 0
  firstTokenLatency : UInt64 := 0
  decodeTime : UInt64 := 0
  interTokenLatencyAvgMs : F64 := F64.zero
  retryTime : UInt64 := 0
  recoveryTime : UInt64 := 0
  totalLatency : UInt64 := 0
  gpuExecTime : UInt64 := 0
  cpuExecTime : UInt64 := 0
  bytesH2d : UInt64 := 0
  bytesD2h : UInt64 := 0
  bytesInterNode : UInt64 := 0
  bytesKv : UInt64 := 0
  bytesTensor : UInt64 := 0
  bytesWorkspace : UInt64 := 0
  kernelHits : UInt64 := 0
  kernelMisses : UInt64 := 0
  graphHits : UInt64 := 0
  graphMisses : UInt64 := 0
  kvLookups : UInt64 := 0
  kvHits : UInt64 := 0
  kvMisses : UInt64 := 0
  modelResidencyRefs : UInt64 := 0
  adapterResidencyRefs : UInt64 := 0
  specProposed : UInt64 := 0
  specAccepted : UInt64 := 0
  specRejected : UInt64 := 0
  decodeSteps : UInt64 := 0
  outputTokens : UInt64 := 0
  inputTokens : UInt64 := 0
  metricProvenance : ExtTreeMap Str Provenance := ∅
  metricAvailable : ExtTreeMap Str Bool := ∅

namespace ResourceAttribution

def has (a : ResourceAttribution) (metric : Str) : Bool := a.metricAvailable.getD metric false

def prov (a : ResourceAttribution) (metric : Str) : Provenance :=
  a.metricProvenance.getD metric .unknown

def mark (a : ResourceAttribution) (metric : Str) (p : Provenance) (available : Bool) :
    ResourceAttribution :=
  { a with
    metricProvenance := a.metricProvenance.insert metric p
    metricAvailable := a.metricAvailable.insert metric available }

/-- A phase metric is available when its slot is filled. -/
def markPhase (a : ResourceAttribution) (metric : Str) (p : PhaseInterval) :
    ResourceAttribution := a.mark metric p.provenance p.present

/-- A measured count is available when it is not zero. -/
def markCount (a : ResourceAttribution) (metric : Str) (n : UInt64) : ResourceAttribution :=
  a.mark metric .measured (n > 0)

end ResourceAttribution

/-- The duration of a phase, zero when it is missing. -/
def dur (t : RequestTrace) (p : Phase) : UInt64 :=
  if (t.getPhase p).present then (t.getPhase p).duration else 0

def sumU64 (evidence : List Observation) (key : Str) : UInt64 :=
  evidence.foldl (fun s o => s + o.u64Field key) 0

/-- The sum of a field over the observations of one type. -/
def sumOf (evidence : List Observation) (type : ObsType) (key : Str) (default : UInt64) : UInt64 :=
  evidence.foldl (fun s o => if o.type = type then s + o.u64Field key default else s) 0

/-- The largest value of a field over the observations of some types. -/
def maxOf (evidence : List Observation) (types : List ObsType) (key : Str) : UInt64 :=
  evidence.foldl (fun m o => if types.contains o.type then max m (o.u64Field key) else m) 0

def gpuExecMs [Platform] (evidence : List Observation) : F64 :=
  evidence.foldl (fun ms o => if o.fields.contains FieldKeys.gpuMs then
    Platform.add ms (o.f64Field FieldKeys.gpuMs) else ms) F64.zero

def cpuExecNs [Platform] (evidence : List Observation) : UInt64 :=
  evidence.foldl (fun ns o => if o.fields.contains FieldKeys.cpuMs then
    ns + Platform.toU64 (Platform.mul (o.f64Field FieldKeys.cpuMs) F64.million) else ns) 0

/-- Milliseconds between tokens. -/
def interTokenMs [Platform] (decodeTime decodeSteps : UInt64) : F64 :=
  Platform.div (Platform.div (Platform.ofU64 decodeTime) (Platform.ofU64 decodeSteps)) F64.million

def attributeResources [Platform] (t : RequestTrace) : ResourceAttribution :=
  let ev := t.evidence
  let hasGpu := ev.any fun o => o.fields.contains FieldKeys.gpuMs
  let decodeSteps := countObs ev .decodeStepStart
  let interToken := decide (decodeSteps > 0) && decide (dur t .decode > 0)
  let a : ResourceAttribution :=
    { queueTime := dur t .queue
      batchWait := dur t .batchWait
      dispatchDelay := dur t .dispatch
      transferTime := dur t .transfer
      prefillTime := dur t .prefill
      firstTokenLatency := dur t .firstToken
      decodeTime := dur t .decode
      interTokenLatencyAvgMs :=
        if interToken then interTokenMs (dur t .decode) decodeSteps else F64.zero
      retryTime := dur t .retry
      recoveryTime := dur t .recovery
      totalLatency := dur t .total
      gpuExecTime := if hasGpu then Platform.toU64 (Platform.mul (gpuExecMs ev) F64.million) else 0
      cpuExecTime := cpuExecNs ev
      bytesH2d := sumU64 ev FieldKeys.bytesH2D
      bytesD2h := sumU64 ev FieldKeys.bytesD2H
      bytesInterNode := sumU64 ev FieldKeys.bytesInterNode
      bytesKv := sumU64 ev FieldKeys.bytesKV
      bytesTensor := sumU64 ev FieldKeys.bytesTensor
      bytesWorkspace := sumU64 ev FieldKeys.bytesWorkspace
      kernelHits := sumOf ev .kernelHit FieldKeys.count 1
      kernelMisses := sumOf ev .kernelMiss FieldKeys.count 1
      graphHits := sumOf ev .graphHit FieldKeys.count 1
      graphMisses := sumOf ev .graphMiss FieldKeys.count 1
      kvLookups := sumOf ev .kvLookup FieldKeys.count 1
      kvHits := sumOf ev .kvHit FieldKeys.count 1
      kvMisses := sumOf ev .kvMiss FieldKeys.count 1
      modelResidencyRefs := sumOf ev .modelResidency FieldKeys.count 1
      adapterResidencyRefs := sumOf ev .adapterResidency FieldKeys.count 1
      specProposed := sumOf ev .speculationStart FieldKeys.specTokens 1
      specAccepted := sumOf ev .speculationVerify FieldKeys.acceptedTokens 0
      specRejected := sumOf ev .speculationVerify FieldKeys.rejectedTokens 0
      decodeSteps := decodeSteps
      outputTokens := maxOf ev [.decodeStepStart] FieldKeys.outputTokens
      inputTokens := maxOf ev [.request, .prefillStart] FieldKeys.inputTokens }
  a.markPhase (lit "queue") (t.getPhase .queue)
    |>.markPhase (lit "batch_wait") (t.getPhase .batchWait)
    |>.markPhase (lit "dispatch") (t.getPhase .dispatch)
    |>.markPhase (lit "transfer") (t.getPhase .transfer)
    |>.markPhase (lit "prefill") (t.getPhase .prefill)
    |>.markPhase (lit "first_token") (t.getPhase .firstToken)
    |>.markPhase (lit "decode") (t.getPhase .decode)
    |>.markPhase (lit "retry") (t.getPhase .retry)
    |>.markPhase (lit "recovery") (t.getPhase .recovery)
    |>.markPhase (lit "total") (t.getPhase .total)
    |>.mark (lit "gpu_exec") (if hasGpu then .measured else .unknown) hasGpu
    |>.mark (lit "cpu_exec") .reported (a.cpuExecTime > 0)
    |>.mark (lit "bytes_h2d") .measured (decide (a.bytesH2d > 0) || decide (ev.length > 0))
    |>.markCount (lit "bytes_d2h") a.bytesD2h
    |>.markCount (lit "bytes_inter_node") a.bytesInterNode
    |>.markCount (lit "bytes_kv") a.bytesKv
    |>.markCount (lit "bytes_tensor") a.bytesTensor
    |>.markCount (lit "bytes_workspace") a.bytesWorkspace
    |>.markCount (lit "kernel_hits") a.kernelHits
    |>.markCount (lit "kernel_misses") a.kernelMisses
    |>.markCount (lit "graph_hits") a.graphHits
    |>.markCount (lit "graph_misses") a.graphMisses
    |>.markCount (lit "kv_lookups") a.kvLookups
    |>.markCount (lit "kv_hits") a.kvHits
    |>.markCount (lit "kv_misses") a.kvMisses
    |>.markCount (lit "spec_proposed") a.specProposed
    |>.markCount (lit "spec_accepted") a.specAccepted
    |>.markCount (lit "spec_rejected") a.specRejected
    |>.mark (lit "inter_token_ms") (if interToken then .derived else .unknown) interToken
    |>.markCount (lit "decode_steps") a.decodeSteps
    |>.markCount (lit "input_tokens") a.inputTokens
    |>.mark (lit "output_tokens") .reported (a.outputTokens > 0)

def ResourceAttribution.toJson (a : ResourceAttribution) : Json :=
  (Json.object []).setAll
    [(lit "queue_ns", .uint a.queueTime), (lit "batch_wait_ns", .uint a.batchWait),
      (lit "dispatch_ns", .uint a.dispatchDelay), (lit "transfer_ns", .uint a.transferTime),
      (lit "prefill_ns", .uint a.prefillTime), (lit "first_token_ns", .uint a.firstTokenLatency),
      (lit "decode_ns", .uint a.decodeTime),
      (lit "inter_token_avg_ms", .double a.interTokenLatencyAvgMs),
      (lit "retry_ns", .uint a.retryTime), (lit "recovery_ns", .uint a.recoveryTime),
      (lit "total_ns", .uint a.totalLatency), (lit "gpu_exec_ns", .uint a.gpuExecTime),
      (lit "cpu_exec_ns", .uint a.cpuExecTime), (lit "bytes_h2d", .uint a.bytesH2d),
      (lit "bytes_d2h", .uint a.bytesD2h), (lit "bytes_inter_node", .uint a.bytesInterNode),
      (lit "bytes_kv", .uint a.bytesKv), (lit "bytes_tensor", .uint a.bytesTensor),
      (lit "bytes_workspace", .uint a.bytesWorkspace), (lit "kernel_hits", .uint a.kernelHits),
      (lit "kernel_misses", .uint a.kernelMisses), (lit "graph_hits", .uint a.graphHits),
      (lit "graph_misses", .uint a.graphMisses), (lit "kv_hits", .uint a.kvHits),
      (lit "kv_misses", .uint a.kvMisses), (lit "spec_proposed", .uint a.specProposed),
      (lit "spec_accepted", .uint a.specAccepted), (lit "spec_rejected", .uint a.specRejected),
      (lit "decode_steps", .uint a.decodeSteps), (lit "input_tokens", .uint a.inputTokens),
      (lit "output_tokens", .uint a.outputTokens),
      (lit "provenance", (Json.object []).setAll
        (a.metricProvenance.toList.map fun p => (p.1, .string p.2.name))),
      (lit "available", (Json.object []).setAll
        (a.metricAvailable.toList.map fun p => (p.1, .bool p.2)))]

end ServingObservatory
