import ServingObservatory.Observation

/-!
# The names of enumerators

The texts by which canonical JSON and explanations name observation types,
provenances, outcomes and explanation classes.
-/
namespace ServingObservatory

/-- `obs_type_name`. -/
def ObsType.name : ObsType → Str
  | .unknown => lit "unknown"
  | .request => lit "request"
  | .admission => lit "admission"
  | .queueEnter => lit "queue_enter"
  | .queueLeave => lit "queue_leave"
  | .batchForm => lit "batch_form"
  | .batchSeal => lit "batch_seal"
  | .batchSplit => lit "batch_split"
  | .batchMerge => lit "batch_merge"
  | .dispatch => lit "dispatch"
  | .prefillStart => lit "prefill_start"
  | .prefillEnd => lit "prefill_end"
  | .decodeStepStart => lit "decode_step_start"
  | .decodeStepEnd => lit "decode_step_end"
  | .speculationStart => lit "speculation_start"
  | .speculationVerify => lit "speculation_verify"
  | .kvLookup => lit "kv_lookup"
  | .kvHit => lit "kv_hit"
  | .kvMiss => lit "kv_miss"
  | .kvGrowth => lit "kv_growth"
  | .modelResidency => lit "model_residency"
  | .adapterResidency => lit "adapter_residency"
  | .kernelLookup => lit "kernel_lookup"
  | .kernelHit => lit "kernel_hit"
  | .kernelMiss => lit "kernel_miss"
  | .graphLookup => lit "graph_lookup"
  | .graphHit => lit "graph_hit"
  | .graphMiss => lit "graph_miss"
  | .allocation => lit "allocation"
  | .free => lit "free"
  | .transferStart => lit "transfer_start"
  | .transferEnd => lit "transfer_end"
  | .retry => lit "retry"
  | .cancel => lit "cancel"
  | .failure => lit "failure"
  | .workerDown => lit "worker_down"
  | .workerRestart => lit "worker_restart"
  | .recovery => lit "recovery"
  | .completion => lit "completion"
  | .sloState => lit "slo_state"
  | .quotaState => lit "quota_state"
  | .capacityState => lit "capacity_state"

/-- `provenance_name`. -/
def Provenance.name : Provenance → Str
  | .unknown => lit "unknown"
  | .measured => lit "measured"
  | .reported => lit "reported"
  | .derived => lit "derived"
  | .estimated => lit "estimated"
  | .reconstructed => lit "reconstructed"
  | .heuristic => lit "heuristic"

inductive Outcome
  | unknown | completed | failed | cancelled | timedOut | preempted | abandoned | retried | partly
  deriving DecidableEq, Repr

/-- `outcome_name`. -/
def Outcome.name : Outcome → Str
  | .unknown => lit "unknown"
  | .completed => lit "completed"
  | .failed => lit "failed"
  | .cancelled => lit "cancelled"
  | .timedOut => lit "timed_out"
  | .preempted => lit "preempted"
  | .abandoned => lit "abandoned"
  | .retried => lit "retried"
  | .partly => lit "partial"

/-- `outcome_from_code`: the outcome of that name. -/
def Outcome.fromCode (code : Str) : Outcome :=
  if code = lit "completed" then .completed
  else if code = lit "failed" then .failed
  else if code = lit "cancelled" then .cancelled
  else if code = lit "timed_out" then .timedOut
  else if code = lit "preempted" then .preempted
  else if code = lit "abandoned" then .abandoned
  else if code = lit "retried" then .retried
  else if code = lit "partial" then .partly
  else .unknown

inductive ExplanationClass
  | unknown | directlyEvidenced | structurallyDerived | temporallyCorrelated
  | plausibleButUnproven | contradicted
  deriving DecidableEq, Repr

/-- `explanation_class_name`. -/
def ExplanationClass.name : ExplanationClass → Str
  | .unknown => lit "unknown"
  | .directlyEvidenced => lit "directly_evidenced"
  | .structurallyDerived => lit "structurally_derived"
  | .temporallyCorrelated => lit "temporally_correlated"
  | .plausibleButUnproven => lit "plausible_but_unproven"
  | .contradicted => lit "contradicted"

end ServingObservatory
