import ServingObservatory.Machine
import ServingObservatory.PointerReader

/-!
# Where a failed read leaves the reader

A reader and the readers of its sections are used in any order. None passes its end, and
one that has failed answers with default values and stays where it is. A read that takes
its bytes one at a time has moved on when it runs out of them, and so has one that refuses
what it took.
-/
namespace ServingObservatory
open BigEndian

/-- What a call of a reader returns, where `ρ` are the readers. -/
inductive ReaderValue (ρ : Type)
  | u8 (v : UInt8)
  | u16 (v : UInt16)
  | u32 (v : UInt32)
  | u64 (v : UInt64)
  | i8 (v : Int8)
  | i16 (v : Int16)
  | i32 (v : Int32)
  | i64 (v : Int64)
  | bool (v : Bool)
  | f32 (v : F32)
  | f64 (v : F64)
  | bytes (v : Bytes)
  | id (v : Id128)
  | reader (r : ρ)
  | unit

/-- The readers that a value hands out. -/
def ReaderValue.readers {ρ : Type} : ReaderValue ρ → List ρ
  | .reader r => [r]
  | _ => []

/-- The calls of a reader that may change it. -/
inductive ReaderOp
  | u8
  | u16
  | u32
  | u64
  | i8
  | i16
  | i32
  | i64
  | bool
  | f32
  | f64
  | length
  | str
  | bytes
  | raw (n : UInt32)
  | id
  | count
  | sub (len : UInt32)
  | requireEnd
  | fail (message : Str)

namespace ReaderOp
open PointerReader

def apply : ReaderOp → StateM PointerReader (ReaderValue PointerReader)
  | .u8 => .u8 <$> rU8
  | .u16 => .u16 <$> rU16
  | .u32 => .u32 <$> rU32
  | .u64 => .u64 <$> rU64
  | .i8 => .i8 <$> readI8
  | .i16 => .i16 <$> readI16
  | .i32 => .i32 <$> readI32
  | .i64 => .i64 <$> readI64
  | .bool => .bool <$> readBool
  | .f32 => .f32 <$> readF32
  | .f64 => .f64 <$> readF64
  | .length => .u32 <$> readLength
  | .str => .bytes <$> readStr
  | .bytes => .bytes <$> readBytes
  | .raw n => .bytes <$> readRaw n
  | .id => .id <$> readId
  | .count => .u64 <$> readCount
  | .sub len => .reader <$> PointerReader.sub len
  | .requireEnd => .bool <$> PointerReader.requireEnd
  | .fail message => fun r => (.unit, r.fail message)

/-- What a reader that has failed returns. -/
def default (r : PointerReader) : ReaderOp → ReaderValue PointerReader
  | .u8 => .u8 0
  | .u16 => .u16 0
  | .u32 | .length => .u32 0
  | .u64 | .count => .u64 0
  | .i8 => .i8 0
  | .i16 => .i16 0
  | .i32 => .i32 0
  | .i64 => .i64 0
  | .bool | .requireEnd => .bool false
  | .f32 => .f32 ⟨0⟩
  | .f64 => .f64 ⟨0⟩
  | .str | .bytes | .raw _ => .bytes []
  | .id => .id {}
  | .sub _ => .reader (r.nested 0)
  | .fail _ => .unit

/-- The bytes that a read takes one at a time. -/
def width : ReaderOp → ℕ
  | .u8 | .i8 | .bool => 1
  | .u16 | .i16 => 2
  | .u32 | .i32 | .f32 | .count | .length | .str | .bytes => 4
  | .u64 | .i64 | .f64 => 8
  | .raw _ | .id | .sub _ | .requireEnd | .fail _ => 0

/-- The read keeps the bytes that it has taken, with `n` more behind them. -/
def Accepts (bs : Bytes) (n : ℕ) : ReaderOp → Prop
  | .f64 => F64.isFinite ⟨UInt64.ofNat (value bs)⟩ = true
  | .length | .str | .bytes => value bs ≤ n
  | _ => True

/-- The read has nothing to take, or finds nothing, or finds all that it takes and keeps it. -/
def AllOrNothing (r : PointerReader) (op : ReaderOp) : Prop :=
  r.failed = true ∨ op.width = 0 ∨ r.remaining = 0 ∨
    op.width ≤ r.remaining ∧ op.Accepts (r.slice op.width) (r.remaining - op.width)

/-- If the operation makes the reader fail, it leaves it where it was. -/
def FailsInPlace (r : PointerReader) (op : ReaderOp) : Prop :=
  r.failed = false → (op.apply r).2.failed = true → (op.apply r).2.pos = r.pos

theorem moves_apply (op : ReaderOp) : Moves op.apply := by
  cases op with
  | u8 => exact moves_u8.map _
  | u16 => exact moves_u16.map _
  | u32 => exact moves_u32.map _
  | u64 => exact moves_u64.map _
  | i8 => exact (moves_u8.bind fun _ => moves_pure _).map _
  | i16 => exact (moves_u16.bind fun _ => moves_pure _).map _
  | i32 => exact (moves_u32.bind fun _ => moves_pure _).map _
  | i64 => exact (moves_u64.bind fun _ => moves_pure _).map _
  | bool => exact (moves_u8.bind fun _ => moves_pure _).map _
  | f32 => exact (moves_u32.bind fun _ => moves_pure _).map _
  | f64 => exact moves_f64.map _
  | length => exact moves_length.map _
  | str => exact moves_prefixed.map _
  | bytes => exact moves_prefixed.map _
  | raw n => exact (moves_raw n).map _
  | id => exact moves_id.map _
  | count => exact (moves_u32.bind fun _ => moves_pure _).map _
  | sub len => exact (moves_sub len).map _
  | requireEnd => exact moves_requireEnd.map _
  | fail message => exact fun r => moved_fail r message

theorem sticks_apply (op : ReaderOp) : Sticks op.apply fun r => op.default r := by
  cases op with
  | u8 => exact sticks_u8.map _
  | u16 => exact sticks_u16.map _
  | u32 => exact sticks_u32.map _
  | u64 => exact sticks_u64.map _
  | i8 => exact (sticks_u8.bind_pure UInt8.toInt8).map _
  | i16 => exact (sticks_u16.bind_pure UInt16.toInt16).map _
  | i32 => exact (sticks_u32.bind_pure UInt32.toInt32).map _
  | i64 => exact (sticks_u64.bind_pure UInt64.toInt64).map _
  | bool => exact (sticks_u8.bind_pure (· != 0)).map _
  | f32 => exact (sticks_u32.bind_pure F32.mk).map _
  | f64 => exact sticks_f64.map _
  | length => exact sticks_length.map _
  | str => exact sticks_prefixed.map _
  | bytes => exact sticks_prefixed.map _
  | raw n => exact (sticks_unlessFailed _ _).map _
  | id => exact (sticks_unlessFailed _ _).map _
  | count => exact (sticks_u32.bind_pure UInt32.toUInt64).map _
  | sub len => exact (sticks_unlessFailed _ _).map _
  | requireEnd => exact (sticks_unlessFailed _ _).map _
  | fail message => exact fun r h => congrArg (ReaderValue.unit, ·) (fail_of_failed h message)

/-- A read that takes no bytes of its own is checked before it moves. -/
theorem failsInPlace_of_width_zero {r : PointerReader} (hr : r.Sound) {op : ReaderOp}
    (h : op.width = 0) : op.FailsInPlace r := by
  intro ho hfailed
  cases op with
  | raw n => exact (inPlace_raw ho n).map _ hfailed
  | id => exact (inPlace_id hr ho).map _ hfailed
  | sub len => exact (inPlace_sub ho len).map _ hfailed
  | requireEnd => exact (inPlace_requireEnd ho).map _ hfailed
  | fail message => exact fail_pos r message
  | _ => cases h

theorem attempts_apply {r : PointerReader} (hr : r.Sound) (ho : r.failed = false) {op : ReaderOp}
    (h : op.width ≠ 0) : Attempts r (op.apply r).2 op.width
      (op.Accepts (r.slice op.width) (r.remaining - op.width)) := by
  cases op with
  | u8 => exact attempts_map (attempts_u8 hr ho) _
  | u16 => exact attempts_map (attempts_u16 hr ho) _
  | u32 => exact attempts_map (attempts_u32 hr ho) _
  | u64 => exact attempts_map (attempts_u64 hr ho) _
  | i8 => exact attempts_map (attempts_return (attempts_u8 hr ho) _) _
  | i16 => exact attempts_map (attempts_return (attempts_u16 hr ho) _) _
  | i32 => exact attempts_map (attempts_return (attempts_u32 hr ho) _) _
  | i64 => exact attempts_map (attempts_return (attempts_u64 hr ho) _) _
  | bool => exact attempts_map (attempts_return (attempts_u8 hr ho) _) _
  | f32 => exact attempts_map (attempts_return (attempts_u32 hr ho) _) _
  | f64 => exact attempts_map (attempts_f64 hr ho) _
  | length => exact attempts_map (attempts_length hr ho) _
  | str => exact attempts_map (attempts_prefixed hr ho) _
  | bytes => exact attempts_map (attempts_prefixed hr ho) _
  | count => exact attempts_map (attempts_return (attempts_u32 hr ho) _) _
  | raw n => exact absurd rfl h
  | id => exact absurd rfl h
  | sub len => exact absurd rfl h
  | requireEnd => exact absurd rfl h
  | fail message => exact absurd rfl h

/-- The condition decides. -/
theorem failsInPlace_iff {r : PointerReader} (hr : r.Sound) (op : ReaderOp) :
    op.FailsInPlace r ↔ op.AllOrNothing r := by
  cases ho : r.failed with
  | true => exact iff_of_true (fun h => by simp [ho] at h) (.inl ho)
  | false =>
    have hnot : ¬ r.failed = true := by simp [ho]
    by_cases hwidth : op.width = 0
    · exact iff_of_true (failsInPlace_of_width_zero hr hwidth) (.inr (.inl hwidth))
    · rw [FailsInPlace, AllOrNothing, imp_iff_right ho, or_iff_right hnot]
      exact (attempts_apply hr ho hwidth).inPlace_iff

/-- A reader that is handed out lies inside the one that it comes from. -/
theorem sound_of_mem_readers {r : PointerReader} (hr : r.Sound) {op : ReaderOp}
    {r' : PointerReader} (h : r' ∈ (op.apply r).1.readers) : r'.Sound ∧ r'.buffer = r.buffer := by
  cases op with
  | sub len =>
    rw [apply, map_fst] at h
    obtain rfl := List.mem_singleton.mp h
    exact sound_sub hr len
  | _ => simp [apply, map_fst, ReaderValue.readers] at h

end ReaderOp

/-- The readers that exist are used in any order, each call at its place in the list. -/
def readersMachine :
    Machine (List PointerReader) (ℕ × ReaderOp) (Option (ReaderValue PointerReader)) where
  step rs call := match rs[call.1]? with
    | some r => (rs.set call.1 (call.2.apply r).2 ++ (call.2.apply r).1.readers,
        some (call.2.apply r).1)
    | none => (rs, none)

/-- The readers of a buffer after some calls. -/
def readersAfter (data : Bytes) (calls : List (ℕ × ReaderOp)) : List PointerReader :=
  readersMachine.run [PointerReader.ofBytes data] calls

/-- `P` holds of each call and of the reader that it is made on. -/
def AtCalls (P : PointerReader → ReaderOp → Prop) (data : Bytes)
    (calls : List (ℕ × ReaderOp)) : Prop :=
  ∀ before i op after, calls = before ++ (i, op) :: after →
    ∀ r, (readersAfter data before)[i]? = some r → P r op

/-- No reader passes its end, and one that has failed answers with default values and stays
as it is. -/
structure StaysFailed (data : Bytes) (calls : List (ℕ × ReaderOp)) : Prop where
  inside : ∀ r ∈ readersAfter data calls, r.pos ≤ r.stop ∧ r.stop ≤ data.length
  defaults : AtCalls (fun r op => r.failed = true → op.apply r = (op.default r, r)) data calls
  stays : ∀ before after, calls = before ++ after → ∀ (i : ℕ) (r : PointerReader),
    (readersAfter data before)[i]? = some r → r.failed = true →
      (readersAfter data calls)[i]? = some r

section Runs
variable {data : Bytes} {rs : List PointerReader}

/-- One call keeps the readers inside the buffer. -/
theorem sound_next (h : ∀ r ∈ rs, r.Sound ∧ r.buffer = data) (call : ℕ × ReaderOp) :
    ∀ r ∈ readersMachine.next rs call, r.Sound ∧ r.buffer = data := by
  intro r' hr'
  cases hr : rs[call.1]? with
  | none =>
    simp only [Machine.next, readersMachine, hr] at hr'
    exact h r' hr'
  | some r =>
    obtain ⟨hsound, hbuffer⟩ := h r (List.mem_of_getElem? hr)
    simp only [Machine.next, readersMachine, hr] at hr'
    rcases List.mem_append.mp hr' with hold | hnew
    · rcases List.mem_or_eq_of_mem_set hold with hmem | rfl
      · exact h r' hmem
      · have hmoved := call.2.moves_apply r
        exact ⟨hmoved.sound hsound, hmoved.buffer.trans hbuffer⟩
    · obtain ⟨hsound', hbuffer'⟩ := ReaderOp.sound_of_mem_readers hsound hnew
      exact ⟨hsound', hbuffer'.trans hbuffer⟩

theorem sound_readersAfter (data : Bytes) (calls : List (ℕ × ReaderOp)) :
    ∀ r ∈ readersAfter data calls, r.Sound ∧ r.buffer = data := by
  refine readersMachine.history_induction
    (I := fun _ rs => ∀ r ∈ rs, PointerReader.Sound r ∧ r.buffer = data) ?_
    (fun _ _ call h => sound_next h call) calls
  intro r hr
  obtain rfl := List.mem_singleton.mp hr
  exact ⟨PointerReader.sound_ofBytes data, rfl⟩

/-- One call leaves a reader that has failed as it is. -/
theorem getElem?_next_of_failed {i : ℕ} {r : PointerReader} (hr : rs[i]? = some r)
    (hfailed : r.failed = true) (call : ℕ × ReaderOp) :
    (readersMachine.next rs call)[i]? = some r := by
  have hi : i < rs.length := (List.getElem?_eq_some_iff.mp hr).1
  cases hcall : rs[call.1]? with
  | none => simpa [Machine.next, readersMachine, hcall] using hr
  | some r' =>
    simp only [Machine.next, readersMachine, hcall]
    rw [List.getElem?_append_left (by rwa [List.length_set])]
    by_cases heq : call.1 = i
    · obtain rfl : r' = r := by simpa [heq, hr] using hcall.symm
      rw [call.2.sticks_apply r' hfailed, heq, List.getElem?_set_self hi]
    · rw [List.getElem?_set_ne heq]
      exact hr

theorem getElem?_run_of_failed {i : ℕ} {r : PointerReader} (hr : rs[i]? = some r)
    (hfailed : r.failed = true) (calls : List (ℕ × ReaderOp)) :
    (readersMachine.run rs calls)[i]? = some r := by
  induction calls generalizing rs with
  | nil => exact hr
  | cons call calls ih => exact ih (getElem?_next_of_failed hr hfailed call)

theorem staysFailed (data : Bytes) (calls : List (ℕ × ReaderOp)) : StaysFailed data calls where
  inside r hr := by
    obtain ⟨hsound, rfl⟩ := sound_readersAfter data calls r hr
    exact ⟨hsound.pos_le, hsound.stop_le⟩
  defaults _ _ op _ _ r _ hfailed := op.sticks_apply r hfailed
  stays := by
    rintro before after rfl i r hr hfailed
    rw [readersAfter, Machine.run_append]
    exact getElem?_run_of_failed hr hfailed after

end Runs

/-- In every run no reader passes its end and one that has failed stays where it is. Every
read that fails leaves its reader where it was if and only if every read is all or nothing. -/
theorem failures_inPlace_iff (data : Bytes) (calls : List (ℕ × ReaderOp)) :
    StaysFailed data calls ∧
      (AtCalls (fun r op => op.FailsInPlace r) data calls ↔
        AtCalls (fun r op => op.AllOrNothing r) data calls) := by
  have hiff : ∀ before i (op : ReaderOp) r, (readersAfter data before)[i]? = some r →
      (op.FailsInPlace r ↔ op.AllOrNothing r) := fun before i op r hr =>
    op.failsInPlace_iff (sound_readersAfter data before r (List.mem_of_getElem? hr)).1
  refine ⟨staysFailed data calls, fun h before i op after hc r hr => ?_,
    fun h before i op after hc r hr => ?_⟩
  · exact (hiff before i op r hr).mp (h before i op after hc r hr)
  · exact (hiff before i op r hr).mpr (h before i op after hc r hr)

/-- A word of two bytes is read from one. -/
theorem not_inPlace_shortWord : ¬ ∀ data calls, StaysFailed data calls ∧
    AtCalls (fun r op => op.FailsInPlace r) data calls := by
  intro h
  have hword := (h [1] [(0, .u16)]).2 [] 0 .u16 [] rfl (PointerReader.ofBytes [1]) rfl rfl
  revert hword
  decide

end ServingObservatory
