import ServingObservatory.Attribution
import ServingObservatory.Latency

/-!
# Explanations and tail metrics

An explanation lists statements about a trace, each with a class that says whether it
is evidenced, derived or only correlated. Tail metrics summarize the latencies of many
traces by nearest-rank percentiles, mean and deviation.
-/
namespace ServingObservatory
open Std Sorting

structure TailMetrics where
  count : UInt64 := 0
  minNs : UInt64 := 0
  maxNs : UInt64 := 0
  p50Ns : UInt64 := 0
  p90Ns : UInt64 := 0
  p95Ns : UInt64 := 0
  p99Ns : UInt64 := 0
  p999Ns : UInt64 := 0
  meanNs : F64 := F64.zero
  stddevNs : F64 := F64.zero
  deriving DecidableEq

structure ExplanationStatement where
  claim : Str
  cls : ExplanationClass := .unknown
  provenance : Provenance := .unknown
  evidence : Str
  phase : Str
  severity : F64 := F64.zero

structure Explanation where
  requestId : RequestId := {}
  breakdown : LatencyBreakdown := {}
  attribution : ResourceAttribution := {}
  statements : List ExplanationStatement := []

section Analysis
variable [Platform]

/-- The value at the rank `p / 100 * n`, rounded up and kept inside the sorted list. -/
def percentileOf (values : List UInt64) (p : F64) : UInt64 :=
  if values.isEmpty then 0
  else
    let v := sorter.sort (fun a b => decide (a < b)) values
    let rank := Platform.mul (Platform.div p F64.hundred) (Platform.ofU64 (UInt64.ofNat v.length))
    let idx := (Platform.toU64 (Platform.ceil rank)).toNat
    let idx := if idx < 1 then 1 else idx
    let idx := if idx > v.length then v.length else idx
    v.getD (idx - 1) 0

def tailMetrics (latencies : List UInt64) : TailMetrics :=
  if latencies.isEmpty then { count := UInt64.ofNat latencies.length }
  else
    let n := Platform.ofU64 (UInt64.ofNat latencies.length)
    let sum := latencies.foldl (fun s v => Platform.add s (Platform.ofU64 v)) F64.zero
    let mean := Platform.div sum n
    let ss := latencies.foldl (fun s v =>
      let d := Platform.sub (Platform.ofU64 v) mean
      Platform.add s (Platform.mul d d)) F64.zero
    { count := UInt64.ofNat latencies.length
      minNs := latencies.foldl min (latencies.headD 0)
      maxNs := latencies.foldl max (latencies.headD 0)
      p50Ns := percentileOf latencies ⟨0x4049000000000000⟩
      p90Ns := percentileOf latencies ⟨0x4056800000000000⟩
      p95Ns := percentileOf latencies ⟨0x4057C00000000000⟩
      p99Ns := percentileOf latencies ⟨0x4058C00000000000⟩
      p999Ns := percentileOf latencies ⟨0x4058F9999999999A⟩
      meanNs := mean
      stddevNs := Platform.sqrt (Platform.div ss n) }

/-- `std::to_string(static_cast<int>(frac * 100.0))`. -/
def percentText (frac : F64) : Str :=
  lit (toString (Platform.toInt (Platform.mul frac F64.hundred)).toInt)

/-- The share of a phase in the latency, unless the phase is a mere marker. -/
def phaseStatements (total : F64) (c : LatencyComponent) : List ExplanationStatement :=
  if c.durationNs = 0 ∧ c.exclusiveNs = 0 then []
  else
    let frac := Platform.div (Platform.ofU64 c.exclusiveNs) total
    let cls := if c.onCriticalPath then ExplanationClass.structurallyDerived
      else ExplanationClass.temporallyCorrelated
    [{ claim := lit "phase " ++ c.name ++ lit " accounts for " ++ percentText frac ++
         lit "% of latency",
       cls := cls, provenance := c.provenance,
       evidence := lit "exclusive_ns=" ++ decimal c.exclusiveNs.toNat, phase := c.name,
       severity := frac }]

/-- Several boots, and several epochs. -/
def authorityStatements (t : RequestTrace) : List ExplanationStatement :=
  let epochs := decimal t.minEpoch.toNat ++ lit ".." ++ decimal t.maxEpoch.toNat
  (if t.boots.length > 1 then
    [{ claim := lit "request spans " ++ decimal t.boots.length ++
         lit " worker boots (worker restart/failover)",
       cls := .directlyEvidenced, provenance := .measured,
       evidence := lit "boots=" ++ decimal t.boots.length ++ lit " epochs=" ++ epochs,
       phase := lit "recovery" }]
  else []) ++
  if t.spansMultipleEpochs then
    [{ claim := lit "request spans multiple coordinator epochs (epoch " ++ epochs ++ lit ")",
       cls := .directlyEvidenced, provenance := .measured, evidence := [], phase := lit "total" }]
  else []

/-- A statement that one observation evidences. -/
def evidenced (o : Observation) (claim evidence phase : Str) : ExplanationStatement :=
  { claim := claim, cls := .directlyEvidenced, provenance := o.provenance, evidence := evidence,
    phase := phase }

/-- Retries, failures, restarts and cold models and adapters. -/
def observationStatements (o : Observation) : List ExplanationStatement :=
  if o.type = .retry then
    [evidenced o (lit "a retry occurred (" ++ o.strField FieldKeys.reason ++ lit ")")
      (lit "retry " ++ o.id.toHex) (lit "retry")]
  else if o.type = .failure then
    [evidenced o (lit "a failure occurred (" ++ o.strField FieldKeys.reason ++ lit ")")
      (lit "failure " ++ o.id.toHex) (lit "retry")]
  else if o.type = .workerRestart then
    [evidenced o (lit "a worker restart occurred") (lit "boot=" ++ o.boot.toHex) (lit "recovery")]
  else if o.type = .modelResidency ∧ o.boolField FieldKeys.isWarm true = false then
    [evidenced o (lit "model was cold (not resident)")
      (lit "model=" ++ (o.idField FieldKeys.modelId).toHex) (lit "prefill")]
  else if o.type = .adapterResidency ∧ o.boolField FieldKeys.isWarm true = false then
    [evidenced o (lit "adapter was cold (not resident)")
      (lit "adapter=" ++ (o.idField FieldKeys.adapterId).toHex) (lit "prefill")]
  else []

/-- A hit ratio below one half. -/
def reuseStatements (a : ResourceAttribution) : List ExplanationStatement :=
  if a.kvLookups > 0 then
    let ratio := Platform.div (Platform.ofU64 a.kvHits) (Platform.ofU64 a.kvLookups)
    if Platform.lt ratio F64.half then
      [{ claim := lit "low KV reuse (hit ratio " ++ percentText ratio ++ lit "%)",
         cls := .structurallyDerived, provenance := .derived,
         evidence := lit "kv_hits=" ++ decimal a.kvHits.toNat ++ lit " kv_lookups=" ++
           decimal a.kvLookups.toNat,
         phase := lit "prefill" }]
    else []
  else []

def queueStatements (total : F64) (a : ResourceAttribution) : List ExplanationStatement :=
  if a.has (lit "queue") ∧ a.queueTime > 0 then
    let frac := Platform.div (Platform.ofU64 a.queueTime) total
    [{ claim := lit "queueing contributed " ++ percentText frac ++ lit "%",
       cls := .structurallyDerived, provenance := a.prov (lit "queue"),
       evidence := lit "queue_ns=" ++ decimal a.queueTime.toNat, phase := lit "queue",
       severity := frac }]
  else []

def gapStatements (total : F64) (b : LatencyBreakdown) : List ExplanationStatement :=
  if b.gapNs > 0 then
    let frac := Platform.div (Platform.ofU64 b.gapNs) total
    [{ claim := lit "unattributed latency " ++ percentText frac ++ lit "%",
       cls := .temporallyCorrelated, provenance := .unknown,
       evidence := lit "gap_ns=" ++ decimal b.gapNs.toNat, phase := lit "total",
       severity := frac }]
  else []

def outcomeStatements (t : RequestTrace) : List ExplanationStatement :=
  if t.outcome ≠ .unknown then
    [{ claim := lit "terminal outcome " ++ t.outcome.name, cls := .directlyEvidenced,
       provenance := .measured, evidence := t.terminalReason, phase := lit "completion" }]
  else []

def explainRequest (t : RequestTrace) : Explanation :=
  let b := decomposeLatency t
  let a := attributeResources t
  let total := if b.totalNs = 0 then F64.one else Platform.ofU64 b.totalNs
  { requestId := t.requestId
    breakdown := b
    attribution := a
    statements := b.components.flatMap (phaseStatements total) ++ authorityStatements t ++
      t.evidence.flatMap observationStatements ++ reuseStatements a ++ queueStatements total a ++
      gapStatements total b ++ outcomeStatements t }

end Analysis

def TailMetrics.toJson (m : TailMetrics) : Json :=
  (Json.object []).setAll
    [(lit "count", .uint m.count), (lit "min_ns", .uint m.minNs), (lit "max_ns", .uint m.maxNs),
      (lit "p50_ns", .uint m.p50Ns), (lit "p90_ns", .uint m.p90Ns), (lit "p95_ns", .uint m.p95Ns),
      (lit "p99_ns", .uint m.p99Ns), (lit "p999_ns", .uint m.p999Ns),
      (lit "mean_ns", .double m.meanNs), (lit "stddev_ns", .double m.stddevNs)]

def ExplanationStatement.toJson (s : ExplanationStatement) : Json :=
  (Json.object []).setAll
    [(lit "claim", .string s.claim), (lit "class", .string s.cls.name),
      (lit "provenance", .string s.provenance.name), (lit "evidence", .string s.evidence),
      (lit "phase", .string s.phase), (lit "severity", .double s.severity)]

def Explanation.toJson (e : Explanation) : Json :=
  (Json.object []).setAll
    [(lit "request_id", .string e.requestId.toHex), (lit "latency", e.breakdown.toJson),
      (lit "attribution", e.attribution.toJson),
      (lit "statements", .array (e.statements.map (·.toJson)))]

end ServingObservatory
