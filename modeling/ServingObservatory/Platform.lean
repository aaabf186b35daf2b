import ServingObservatory.Observation
import ServingObservatory.Sorting

/-!
# What the platform decides

`std::sort` leaves the order of ties to the library, and doubles are computed,
converted and printed by the hardware and the C library. Nothing is assumed of the
doubles beyond being functions of their operands.
-/
namespace ServingObservatory
open Sorting

class Platform where
  sorter : Sorter
  /-- `static_cast<double>` of an unsigned integer. -/
  ofU64 : UInt64 → F64
  /-- `static_cast<double>` of a signed integer. -/
  ofI64 : Int64 → F64
  /-- `static_cast<u64>` of a double. -/
  toU64 : F64 → UInt64
  /-- `static_cast<int>` of a double. -/
  toInt : F64 → Int32
  add : F64 → F64 → F64
  sub : F64 → F64 → F64
  mul : F64 → F64 → F64
  div : F64 → F64 → F64
  sqrt : F64 → F64
  ceil : F64 → F64
  lt : F64 → F64 → Bool
  /-- `snprintf("%.17g")`. -/
  print : F64 → Str

export Platform (sorter)

/-- The standard library's stable sort and the doubles of the machine that runs this. -/
@[reducible] def Platform.machine : Platform where
  sorter := Sorter.mergeSorter
  ofU64 v := ⟨v.toFloat.toBits⟩
  ofI64 v := ⟨v.toFloat.toBits⟩
  toU64 v := (Float.ofBits v.bits).toUInt64
  toInt v := (Float.ofBits v.bits).toInt32
  add a b := ⟨(Float.ofBits a.bits + Float.ofBits b.bits).toBits⟩
  sub a b := ⟨(Float.ofBits a.bits - Float.ofBits b.bits).toBits⟩
  mul a b := ⟨(Float.ofBits a.bits * Float.ofBits b.bits).toBits⟩
  div a b := ⟨(Float.ofBits a.bits / Float.ofBits b.bits).toBits⟩
  sqrt a := ⟨(Float.ofBits a.bits).sqrt.toBits⟩
  ceil a := ⟨(Float.ofBits a.bits).ceil.toBits⟩
  lt a b := Float.ofBits a.bits < Float.ofBits b.bits
  print a := lit (toString (Float.ofBits a.bits))

/-- A platform may bring any sort. -/
theorem Platform.forall_sorter_iff (Q : Sorter → Prop) :
    (∀ P : Platform, Q P.sorter) ↔ ∀ S, Q S :=
  ⟨fun h S => h { Platform.machine with sorter := S }, fun h P => h P.sorter⟩

namespace F64

def zero : F64 := ⟨0⟩

def half : F64 := ⟨0x3FE0000000000000⟩

def one : F64 := ⟨0x3FF0000000000000⟩

def hundred : F64 := ⟨0x4059000000000000⟩

/-- `1e6`. -/
def million : F64 := ⟨0x412E848000000000⟩

end F64

/-- Integers are converted. -/
def Observation.f64Field [Platform] (o : Observation) (k : Str) (default : F64 := F64.zero) : F64 :=
  match o.fields[k]? with
  | some (.f64 v) => v
  | some (.i64 v) => Platform.ofI64 v
  | some (.u64 v) => Platform.ofU64 v
  | _ => default

end ServingObservatory
