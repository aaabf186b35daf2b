import ServingObservatory.BigEndian

/-!
# Byte strings and strongly typed 128-bit identities

A `std::string` is a sequence of bytes compared as unsigned characters, so
strings and byte arrays are both lists of `UInt8`. An identity is two 64-bit
words ordered by `hi`, then by `lo`; the tag keeps identities of different
kinds apart and carries no data.
-/
namespace ServingObservatory
open Std

abbrev Bytes := List UInt8

abbrev Str := List UInt8

/-- The bytes of a string literal; every literal of the source is ASCII. -/
def lit (s : String) : Str := s.toList.map fun c => UInt8.ofNat c.toNat

/-- `std::to_string` of an unsigned integer. -/
def decimal (n : ℕ) : Str := lit (toString n)

structure Id128 where
  hi : UInt64 := 0
  lo : UInt64 := 0
  deriving DecidableEq, Repr

namespace Id128

instance : Ord Id128 := ⟨compareLex (compareOn Id128.hi) (compareOn Id128.lo)⟩

instance : TransOrd Id128 :=
  inferInstanceAs (TransCmp (compareLex (compareOn Id128.hi) (compareOn Id128.lo)))

instance : LawfulEqOrd Id128 where
  eq_of_compare {a b} h := by
    obtain ⟨hhi, hlo⟩ := Ordering.then_eq_eq.mp h
    cases a
    cases b
    exact congrArg₂ Id128.mk (LawfulEqOrd.eq_of_compare hhi) (LawfulEqOrd.eq_of_compare hlo)

/-- `operator<`. -/
def lt (a b : Id128) : Bool := a.hi < b.hi || (a.hi == b.hi && a.lo < b.lo)

theorem lt_eq_isLT (a b : Id128) : a.lt b = (compare a b).isLT := by
  have hcmp : compare a b =
      (compareOfLessAndEq a.hi b.hi).then (compareOfLessAndEq a.lo b.lo) := rfl
  rw [hcmp, lt, compareOfLessAndEq, compareOfLessAndEq]
  by_cases hhi : a.hi < b.hi
  · simp [hhi]
  · by_cases heq : a.hi = b.hi
    · by_cases hlo : a.lo < b.lo
      · simp [hlo, heq]
      · by_cases helo : a.lo = b.lo <;> simp [hlo, heq, helo]
    · simp [hhi, heq]

def kHex : Str := lit "0123456789abcdef"

/-- Exactly 32 lower-case hexadecimal characters, most significant byte first. -/
def toHex (v : Id128) : Str :=
  (List.range 16).flatMap fun i =>
    let shift := if i < 8 then (7 - i) * 8 else (15 - i) * 8
    let word := if i < 8 then v.hi else v.lo
    let b := ((word >>> UInt64.ofNat shift) &&& 0xFF).toUInt8
    [kHex.getD (b >>> 4).toNat 0, kHex.getD (b &&& 0xF).toNat 0]

/-- The 16-byte big-endian form. -/
def toBytes (v : Id128) : Bytes :=
  BigEndian.putBe 8 v.hi.toBitVec ++ BigEndian.putBe 8 v.lo.toBitVec

theorem toBytes_eq (v : Id128) :
    v.toBytes = BigEndian.bytes 8 v.hi.toNat ++ BigEndian.bytes 8 v.lo.toNat :=
  congrArg₂ _ (BigEndian.putBe_eq 8 _) (BigEndian.putBe_eq 8 _)

/-- One byte of the two running hashes of `derive`. -/
def deriveStep (h : UInt64 × UInt64) (b : UInt8) : UInt64 × UInt64 :=
  ((h.1 ^^^ b.toUInt64) * 1099511628211, (h.2 ^^^ (b + 1).toUInt64) * 1099511628211)

def mix (x : UInt64) : UInt64 :=
  let x := (x ^^^ (x >>> 30)) * 0xbf58476d1ce4e5b9
  let x := (x ^^^ (x >>> 27)) * 0x94d049bb133111eb
  x ^^^ (x >>> 31)

/-- An identity from a namespace tag and bytes; its high word is never zero. -/
def derive (namespaceTag : UInt64) (data : Bytes) : Id128 :=
  let kFnv : UInt64 := 14695981039346656037
  let h := data.foldl deriveStep
    (kFnv ^^^ namespaceTag, kFnv ^^^ (namespaceTag ^^^ 0x9e3779b97f4a7c15))
  let hi := mix h.1 ^^^ 0x00ECB00000000000
  ⟨if hi == 0 then 1 else hi, mix h.2⟩

end Id128

/-- An identity of one kind. The null identity is all zero. -/
@[ext] structure Id (Tag : Type) where
  raw : Id128 := {}

namespace Id
variable {Tag : Type}

instance : DecidableEq (Id Tag) := fun _ _ => decidable_of_iff _ Id.ext_iff.symm

instance : Ord (Id Tag) := ⟨compareOn Id.raw⟩

instance : TransOrd (Id Tag) := inferInstanceAs (TransCmp (compareOn (@Id.raw Tag)))

instance : LawfulEqOrd (Id Tag) where
  eq_of_compare {a b} h := by
    cases a
    cases b
    exact congrArg Id.mk (@LawfulEqOrd.eq_of_compare Id128 _ _ _ _ h)

def isNull (i : Id Tag) : Bool := i.raw == {}

def toHex (i : Id Tag) : Str := i.raw.toHex

end Id

structure RequestIdTag
structure TenantIdTag
structure WorkloadIdTag
structure ModelIdTag
structure ModelRevisionIdTag
structure AdapterIdTag
structure TraceIdTag
structure WorkerIdTag
structure WorkerBootIdTag
structure ObservationIdTag
structure SourceIdTag

abbrev RequestId := Id RequestIdTag
abbrev TenantId := Id TenantIdTag
abbrev WorkloadId := Id WorkloadIdTag
abbrev ModelId := Id ModelIdTag
abbrev ModelRevisionId := Id ModelRevisionIdTag
abbrev AdapterId := Id AdapterIdTag
abbrev TraceId := Id TraceIdTag
abbrev WorkerId := Id WorkerIdTag
abbrev WorkerBootId := Id WorkerBootIdTag
abbrev ObservationId := Id ObservationIdTag
abbrev SourceId := Id SourceIdTag

end ServingObservatory
