import ServingObservatory.Identity

/-!
# Typed observations

The atomic unit of evidence: an authority envelope, optional timestamps, health
and confidence, and a sorted map of typed payload fields. Floating-point values
are kept as their IEEE-754 bit patterns, which is all the codec and the
coordinator ever look at.
-/
namespace ServingObservatory
open Std

/-- Observation kinds, numbered from zero in the order of the wire codes. -/
inductive ObsType
  | unknown | request | admission | queueEnter | queueLeave | batchForm | batchSeal
  | batchSplit | batchMerge | dispatch | prefillStart | prefillEnd | decodeStepStart
  | decodeStepEnd | speculationStart | speculationVerify | kvLookup | kvHit | kvMiss
  | kvGrowth | modelResidency | adapterResidency | kernelLookup | kernelHit | kernelMiss
  | graphLookup | graphHit | graphMiss | allocation | free | transferStart | transferEnd
  | retry | cancel | failure | workerDown | workerRestart | recovery | completion
  | sloState | quotaState | capacityState
  deriving DecidableEq, Repr

inductive Provenance
  | unknown | measured | reported | derived | estimated | reconstructed | heuristic
  deriving DecidableEq, Repr

inductive SourceHealth
  | unknown | healthy | degraded | stale | down | restarting | rejected
  deriving DecidableEq, Repr

/-- The code of an enumerator is its declaration index. -/
def ObsType.code (t : ObsType) : UInt16 := UInt16.ofNat t.ctorIdx

def Provenance.code (p : Provenance) : UInt8 := UInt8.ofNat p.ctorIdx

def SourceHealth.code (h : SourceHealth) : UInt8 := UInt8.ofNat h.ctorIdx

/-- An IEEE-754 binary64 value by its bit pattern. -/
structure F64 where
  bits : UInt64
  deriving DecidableEq, Repr

namespace F64

def exponent (v : F64) : UInt64 := (v.bits >>> 52) &&& 0x7FF

def mantissa (v : F64) : UInt64 := v.bits &&& 0xFFFFFFFFFFFFF

def isNaN (v : F64) : Bool := v.exponent == 0x7FF && v.mantissa != 0

def isInf (v : F64) : Bool := v.exponent == 0x7FF && v.mantissa == 0

def isFinite (v : F64) : Bool := !(v.isNaN || v.isInf)

end F64

/-- An IEEE-754 binary32 value by its bit pattern. -/
structure F32 where
  bits : UInt32
  deriving DecidableEq, Repr

namespace F32

def exponent (v : F32) : UInt32 := (v.bits >>> 23) &&& 0xFF

def mantissa (v : F32) : UInt32 := v.bits &&& 0x7FFFFF

def isNaN (v : F32) : Bool := v.exponent == 0xFF && v.mantissa != 0

def isInf (v : F32) : Bool := v.exponent == 0xFF && v.mantissa == 0

def isFinite (v : F32) : Bool := !(v.isNaN || v.isInf)

end F32

/-- `std::variant<NullVal, bool, i64, u64, f64, string, Id128, bytes>`. -/
inductive FieldValue
  | null
  | bool (v : Bool)
  | i64 (v : Int64)
  | u64 (v : UInt64)
  | f64 (v : F64)
  | str (v : Str)
  | id (v : Id128)
  | bytes (v : Bytes)
  deriving DecidableEq, Repr

namespace FieldKeys

def requestId : Str := lit "request_id"

def tenantId : Str := lit "tenant_id"

def workloadId : Str := lit "workload_id"

def modelId : Str := lit "model_id"

def modelRevId : Str := lit "model_rev_id"

def adapterId : Str := lit "adapter_id"

def inputTokens : Str := lit "input_tokens"

def outputTokens : Str := lit "output_tokens"

def specTokens : Str := lit "spec_tokens"

def acceptedTokens : Str := lit "accepted_tokens"

def rejectedTokens : Str := lit "rejected_tokens"

def gpuMs : Str := lit "gpu_ms"

def cpuMs : Str := lit "cpu_ms"

def bytesH2D : Str := lit "bytes_h2d"

def bytesD2H : Str := lit "bytes_d2h"

def bytesInterNode : Str := lit "bytes_inter_node"

def bytesKV : Str := lit "bytes_kv"

def bytesTensor : Str := lit "bytes_tensor"

def bytesWorkspace : Str := lit "bytes_workspace"

def isWarm : Str := lit "is_warm"

def outcome : Str := lit "outcome"

def reason : Str := lit "reason"

def count : Str := lit "count"

end FieldKeys

structure Observation where
  id : ObservationId := {}
  type : ObsType := .unknown
  source : SourceId := {}
  worker : WorkerId := {}
  boot : WorkerBootId := {}
  srcGen : UInt64 := 0
  obsGen : UInt64 := 0
  epoch : UInt64 := 0
  seq : UInt64 := 0
  clockDomain : Str := []
  hasObsTs : Bool := false
  obsTs : UInt64 := 0
  hasRecvTs : Bool := false
  recvTs : UInt64 := 0
  provenance : Provenance := .unknown
  hasHealth : Bool := false
  health : SourceHealth := .unknown
  hasConfidence : Bool := false
  confidence : F32 := ⟨0⟩
  fields : ExtTreeMap Str FieldValue := ∅

namespace Observation

/-- Signed integers are converted. -/
def u64Field (o : Observation) (k : Str) (default : UInt64 := 0) : UInt64 :=
  match o.fields[k]? with
  | some (.u64 v) => v
  | some (.i64 v) => v.toUInt64
  | _ => default

def boolField (o : Observation) (k : Str) (default : Bool := false) : Bool :=
  match o.fields[k]? with
  | some (.bool v) => v
  | _ => default

def strField (o : Observation) (k : Str) (default : Str := []) : Str :=
  match o.fields[k]? with
  | some (.str v) => v
  | _ => default

/-- The null identity stands for an absent field and for one of another type. -/
def idField (o : Observation) (k : Str) : Id128 :=
  match o.fields[k]? with
  | some (.id v) => v
  | _ => {}

def requestId (o : Observation) : RequestId := ⟨o.idField FieldKeys.requestId⟩

end Observation
end ServingObservatory
