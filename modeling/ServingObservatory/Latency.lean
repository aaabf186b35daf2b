import ServingObservatory.Trace

/-!
# Latency decomposition

A sweep over the ends of the phase intervals awards every elementary segment to the
phase of the highest priority that covers it. The critical path is the longest chain
of intervals that do not overlap.
-/
namespace ServingObservatory
open Std Sorting

/-- Execution outranks queueing, transfer and overhead. -/
def phasePriority : Phase → ℤ
  | .arrival => 0
  | .admission => 1
  | .queue => 2
  | .batchWait => 3
  | .dispatch => 4
  | .transfer => 5
  | .speculation => 6
  | .prefill => 7
  | .firstToken => 8
  | .decode => 9
  | .retry => 10
  | .recovery => 11
  | .completion => 12
  | .total => -1

structure LatencyComponent where
  phase : Phase
  name : Str
  durationNs : UInt64 := 0
  exclusiveNs : UInt64 := 0
  percentOfTotal : F64 := F64.zero
  onCriticalPath : Bool := false
  provenance : Provenance := .unknown
  pointEvent : Bool := false

structure LatencyBreakdown where
  totalNs : UInt64 := 0
  coveredNs : UInt64 := 0
  gapNs : UInt64 := 0
  components : List LatencyComponent := []

/-- An interval of the sweep. -/
structure IV where
  phase : Phase
  s : UInt64
  e : UInt64
  prov : Provenance
  deriving DecidableEq

namespace IV

/-- `e - s`, or zero for an interval that runs backwards. -/
def duration (iv : IV) : UInt64 := if iv.e ≥ iv.s then iv.e - iv.s else 0

/-- The instant lies in the half-open interval. -/
def covers (iv : IV) (t : UInt64) : Bool := iv.s ≤ t && t < iv.e

end IV

/-- The slots that exist, without the total. -/
def intervals (t : PhaseTable) : List IV :=
  Phase.all.filterMap fun p =>
    if !(t p).present then none
    else if (t p).phase = .total then none
    else some ⟨(t p).phase, (t p).start, (t p).end, (t p).provenance⟩

def initialComponent (iv : IV) : LatencyComponent :=
  { phase := iv.phase, name := iv.phase.name, durationNs := iv.duration,
    pointEvent := iv.duration == 0, provenance := iv.prov }

/-- `std::set<TimestampNs>` in increasing order. -/
def coords (ivs : List IV) : List UInt64 :=
  (ivs.foldl (fun c iv => (c.insert iv.s).insert iv.e) (∅ : ExtTreeSet UInt64)).toList

/-- The order of enumerators. -/
def Phase.lt (p q : Phase) : Bool := p.ctorIdx < q.ctorIdx

/-- The best phase so far: its priority, and its index if there is one. -/
structure Best where
  pri : ℤ := -1
  index : Option ℕ := none

/-- The selection loop body for the interval at an index. -/
def selectStep (ivs : List IV) (mid : UInt64) (b : Best) (x : IV × ℕ) : Best :=
  if x.1.covers mid then
    let pri := phasePriority x.1.phase
    let earlier := (b.index.bind fun i => ivs[i]?).any fun iv => x.1.phase.lt iv.phase
    if pri > b.pri ∨ pri = b.pri ∧ earlier then { pri := pri, index := some x.2 } else b
  else b

/-- The index of the phase that an instant is awarded to. -/
def select (ivs : List IV) (mid : UInt64) : Option ℕ :=
  (ivs.zipIdx.foldl (selectStep ivs mid) {}).index

/-- The state of the sweep: the exclusive time of each component and the covered time. -/
structure Sweep where
  exclusive : List UInt64
  covered : UInt64
  prev : UInt64

/-- One segment, from the previous end to the current one. -/
def sweepStep (ivs : List IV) (st : Sweep) (cur : UInt64) : Sweep :=
  if cur = st.prev then st
  else
    let mid := st.prev + (cur - st.prev) / 2
    match select ivs mid with
    | some best =>
      { exclusive := st.exclusive.modify best (· + (cur - st.prev))
        covered := st.covered + (cur - st.prev), prev := cur }
    | none => { st with prev := cur }

/-- The sweep over all segments. -/
def sweep (ivs : List IV) : Sweep :=
  let start : Sweep := { exclusive := ivs.map fun _ => 0, covered := 0, prev := 0 }
  match coords ivs with
  | first :: second :: rest => (second :: rest).foldl (sweepStep ivs) { start with prev := first }
  | _ => start

/-- The comparison of the chain order: by start, then by end, then by index. -/
def chainLt (ivs : List IV) (a b : ℕ) : Bool :=
  match ivs[a]?, ivs[b]? with
  | some x, some y =>
    if x.s ≠ y.s then x.s < y.s
    else if x.e ≠ y.e then x.e < y.e
    else a < b
  | _, _ => a < b

/-- The chain table: the longest chain that ends in each interval, the interval before
it, and the interval where the longest of all ends. -/
structure Chain where
  chain : List UInt64
  pred : List (Option ℕ)
  best : UInt64 := 0
  bestIdx : Option ℕ := none

/-- The best interval among those handled before that end where `i` starts. -/
def chainPred (ivs : List IV) (chain : List UInt64) (before : List ℕ) (i : ℕ) :
    UInt64 × Option ℕ :=
  before.foldl (fun acc j =>
    match ivs[j]?, ivs[i]? with
    | some y, some x =>
      if y.e ≤ x.s then
        if chain.getD j 0 > acc.1 then (chain.getD j 0, some j) else acc
      else acc
    | _, _ => acc) (0, none)

/-- One interval of the chain order, with those before it. -/
def chainStep (ivs : List IV) (order : List ℕ) (c : Chain) (x : ℕ × ℕ) : Chain :=
  let i := x.1
  let dur := (ivs[i]?.map IV.duration).getD 0
  let (bestprev, bestpred) := chainPred ivs c.chain (order.take x.2) i
  let len := bestprev + dur
  let c := { c with chain := c.chain.set i len, pred := c.pred.set i bestpred }
  if len > c.best then { c with best := len, bestIdx := some i } else c

/-- The walk back along the predecessors; a chain visits no interval twice. -/
def pathFrom (pred : List (Option ℕ)) : ℕ → Option ℕ → List ℕ
  | 0, _ => []
  | _, none => []
  | n + 1, some i => i :: pathFrom pred n (pred.getD i none)

section Decomposition
variable [Platform]

def chainTable (ivs : List IV) : Chain :=
  let order := sorter.sort (chainLt ivs) (List.range ivs.length)
  order.zipIdx.foldl (chainStep ivs order)
    { chain := ivs.map fun _ => 0, pred := ivs.map fun _ => none }

def criticalPath (ivs : List IV) : List ℕ :=
  pathFrom (chainTable ivs).pred ivs.length (chainTable ivs).bestIdx

/-- `exclusive / total * 100`, or zero without a total. -/
def percentOf (exclusive total : UInt64) : F64 :=
  if total = 0 then F64.zero
  else Platform.mul (Platform.div (Platform.ofU64 exclusive) (Platform.ofU64 total)) F64.hundred

def decomposeLatency (t : RequestTrace) : LatencyBreakdown :=
  let total := t.getPhase .total
  if !total.present then {}
  else
    let totalNs := total.duration
    let ivs := intervals t.phases
    let st := sweep ivs
    let path := criticalPath ivs
    { totalNs := totalNs
      coveredNs := st.covered
      gapNs := if totalNs ≥ st.covered then totalNs - st.covered else 0
      components := (ivs.zip st.exclusive).zipIdx.map fun ((iv, exclusive), i) =>
        { initialComponent iv with
          exclusiveNs := exclusive, percentOfTotal := percentOf exclusive totalNs,
          onCriticalPath := path.contains i } }

end Decomposition

def LatencyComponent.toJson (c : LatencyComponent) : Json :=
  (Json.object []).setAll
    [(lit "phase", .string c.phase.name), (lit "duration_ns", .uint c.durationNs),
      (lit "exclusive_ns", .uint c.exclusiveNs), (lit "percent_of_total", .double c.percentOfTotal),
      (lit "on_critical_path", .bool c.onCriticalPath),
      (lit "provenance", .string c.provenance.name), (lit "point_event", .bool c.pointEvent)]

def LatencyBreakdown.toJson (b : LatencyBreakdown) : Json :=
  (Json.object []).setAll
    [(lit "total_ns", .uint b.totalNs), (lit "covered_ns", .uint b.coveredNs),
      (lit "gap_ns", .uint b.gapNs), (lit "components", .array (b.components.map (·.toJson)))]

end ServingObservatory
