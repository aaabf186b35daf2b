import ServingObservatory.BinaryCodec

/-!
# The binary reader with its two pointers

The reader of the source keeps a pointer to the next byte and one behind the last, and
each read moves the first of them. Here they are offsets into the buffer, so that a read
that fails shows how far it came. The bytes between the offsets are what the reader on
lists holds, and both readers answer alike.
-/
namespace ServingObservatory
open BigEndian

/-- `p_` and `end_` as offsets into the buffer, and the sticky failure. -/
structure PointerReader where
  buffer : Bytes
  pos : ℕ := 0
  stop : ℕ
  failed : Bool := false
  err : Str := []
  deriving DecidableEq

namespace PointerReader

/-- The reader over all bytes of a buffer. -/
def ofBytes (b : Bytes) : PointerReader := { buffer := b, stop := b.length }

/-- `BinaryReader(p_, len)`. -/
def nested (r : PointerReader) (len : ℕ) : PointerReader :=
  { buffer := r.buffer, pos := r.pos, stop := r.pos + len }

def atEnd (r : PointerReader) : Bool := r.pos == r.stop

def remaining (r : PointerReader) : ℕ := r.stop - r.pos

/-- The first failure keeps its message. -/
def fail (r : PointerReader) (message : Str) : PointerReader :=
  if r.failed then r else { r with failed := true, err := message }

/-- `p_ += n`. -/
def advance (r : PointerReader) (n : ℕ) : PointerReader := { r with pos := r.pos + n }

/-- The bytes from `p_` to `p_ + n`. -/
def slice (r : PointerReader) (n : ℕ) : Bytes := (r.buffer.drop r.pos).take n

/-- A read that a failed reader answers with a default value. -/
def unlessFailed {α : Type} (default : PointerReader → α) (m : StateM PointerReader α) :
    StateM PointerReader α := fun r => if r.failed then (default r, r) else m r

/-- `*p_++`, unless `p_ == end_`. -/
def nextByte : StateM PointerReader UInt8 := fun r =>
  if r.atEnd then (0, r.fail (lit "unexpected end of buffer"))
  else (r.buffer.getD r.pos 0, r.advance 1)

def rU8 : StateM PointerReader UInt8 := unlessFailed (fun _ => 0) nextByte

/-- The loop `v = (v << 8) | r_u8()`. -/
def rBe {w : ℕ} : ℕ → BitVec w → StateM PointerReader (BitVec w)
  | 0, v => pure v
  | n + 1, v => do
    let b ← rU8
    rBe n (shiftIn v b)

def rU16 : StateM PointerReader UInt16 := do return ⟨← rBe 2 0⟩

def rU32 : StateM PointerReader UInt32 := do return ⟨← rBe 4 0⟩

def rU64 : StateM PointerReader UInt64 := do return ⟨← rBe 8 0⟩

def readI8 : StateM PointerReader Int8 := do return (← rU8).toInt8

def readI16 : StateM PointerReader Int16 := do return (← rU16).toInt16

def readI32 : StateM PointerReader Int32 := do return (← rU32).toInt32

def readI64 : StateM PointerReader Int64 := do return (← rU64).toInt64

def readBool : StateM PointerReader Bool := do return (← rU8) != 0

def readF32 : StateM PointerReader F32 := do return ⟨← rU32⟩

/-- A value that was read is returned, and the reader fails if the value is refused. -/
def failIf {α : Type} (c : Bool) (message : Str) (a : α) : StateM PointerReader α :=
  fun r => (a, if c then r.fail message else r)

def readF64 : StateM PointerReader F64 := do
  let v := ⟨← rU64⟩
  failIf (v.isNaN || v.isInf) (lit "NaN/Inf floating value rejected") v

/-- A declared length, unless it exceeds the remaining bytes. -/
def checkLength (len : UInt32) : StateM PointerReader UInt32 := fun r =>
  if len.toNat > r.remaining then
    (0, r.fail (lit "declared length " ++ decimal len.toNat ++ lit " exceeds remaining " ++
      decimal r.remaining))
  else (len, r)

def readLength : StateM PointerReader UInt32 := do
  let len ← rU32
  unlessFailed (fun _ => 0) (checkLength len)

/-- A copy of the next `n` bytes, and `p_ += n`. -/
def take (n : ℕ) : StateM PointerReader Bytes := fun r => (r.slice n, r.advance n)

/-- `read_str` and `read_bytes`. -/
def readPrefixed : StateM PointerReader Bytes := do
  let len ← readLength
  unlessFailed (fun _ => []) (take len.toNat)

def readStr : StateM PointerReader Str := readPrefixed

def readBytes : StateM PointerReader Bytes := readPrefixed

/-- A read that fails unless `n` bytes remain. -/
def needing {α : Type} (n : ℕ) (message : Str) (default : PointerReader → α)
    (m : StateM PointerReader α) : StateM PointerReader α :=
  unlessFailed default fun r => if n > r.remaining then (default r, r.fail message) else m r

def readRaw (n : UInt32) : StateM PointerReader Bytes :=
  needing n.toNat (lit "read_raw overruns buffer") (fun _ => []) (take n.toNat)

def readId : StateM PointerReader Id128 :=
  needing 16 (lit "truncated id") (fun _ => {}) do
    let hi ← rU64
    let lo ← rU64
    return ⟨hi, lo⟩

def readCount : StateM PointerReader UInt64 := do return (← rU32).toUInt64

/-- A reader of the next `len` bytes, or of none when they do not remain. -/
def sub (len : UInt32) : StateM PointerReader PointerReader :=
  needing len.toNat (lit "sub-section overruns buffer") (fun r => r.nested 0) fun r =>
    (r.nested len.toNat, r.advance len.toNat)

/-- No trailing garbage. -/
def requireEnd : StateM PointerReader Bool :=
  unlessFailed (fun _ => false) fun r =>
    if r.atEnd then (true, r)
    else (false, r.fail (lit "trailing garbage: " ++ decimal r.remaining ++ lit " bytes"))

/-- The next byte lies before the end of the reader, and the end inside the buffer. -/
structure Sound (r : PointerReader) : Prop where
  pos_le : r.pos ≤ r.stop
  stop_le : r.stop ≤ r.buffer.length

theorem sound_ofBytes (b : Bytes) : (ofBytes b).Sound := ⟨Nat.zero_le _, le_rfl⟩

/-- The pointer has moved on, not past the end. -/
structure Moved (r r' : PointerReader) : Prop where
  buffer : r'.buffer = r.buffer
  stop : r'.stop = r.stop
  le_pos : r.pos ≤ r'.pos
  pos_le : r.pos ≤ r.stop → r'.pos ≤ r.stop

section Moves
variable {α β : Type} {r r' r'' : PointerReader}

theorem Moved.refl (r : PointerReader) : Moved r r := ⟨rfl, rfl, le_rfl, id⟩

theorem Moved.trans (h : Moved r r') (h' : Moved r' r'') : Moved r r'' where
  buffer := h'.buffer.trans h.buffer
  stop := h'.stop.trans h.stop
  le_pos := h.le_pos.trans h'.le_pos
  pos_le hle := by
    have hmid := h.pos_le hle
    rw [← h.stop] at hmid ⊢
    exact h'.pos_le hmid

theorem Moved.sound (h : Moved r r') (hr : r.Sound) : r'.Sound :=
  ⟨h.stop ▸ h.pos_le hr.pos_le, h.stop ▸ h.buffer ▸ hr.stop_le⟩

@[simp] theorem fail_pos (r : PointerReader) (message : Str) : (r.fail message).pos = r.pos := by
  unfold fail
  split <;> rfl

@[simp] theorem fail_stop (r : PointerReader) (message : Str) :
    (r.fail message).stop = r.stop := by
  unfold fail
  split <;> rfl

@[simp] theorem fail_buffer (r : PointerReader) (message : Str) :
    (r.fail message).buffer = r.buffer := by
  unfold fail
  split <;> rfl

@[simp] theorem fail_failed (r : PointerReader) (message : Str) :
    (r.fail message).failed = true := by
  unfold fail
  split_ifs with h
  · exact h
  · rfl

theorem fail_of_failed (h : r.failed = true) (message : Str) : r.fail message = r := if_pos h

theorem moved_fail (r : PointerReader) (message : Str) : Moved r (r.fail message) := by
  constructor <;> simp

theorem moved_advance {n : ℕ} (h : n ≤ r.remaining) : Moved r (r.advance n) := by
  refine ⟨rfl, rfl, Nat.le_add_right _ _, fun hle => ?_⟩
  have hroom : n ≤ r.stop - r.pos := h
  change r.pos + n ≤ r.stop
  omega

/-- A read moves the pointer on, and not past the end. -/
def Moves (m : StateM PointerReader α) : Prop := ∀ r, Moved r (m r).2

theorem moves_pure (a : α) : Moves (pure a) := Moved.refl

theorem Moves.bind {m : StateM PointerReader α} {f : α → StateM PointerReader β} (hm : Moves m)
    (hf : ∀ a, Moves (f a)) : Moves (m >>= f) := fun r => (hm r).trans (hf _ _)

theorem Moves.map {m : StateM PointerReader α} (hm : Moves m) (f : α → β) : Moves (f <$> m) := hm

theorem Moves.unlessFailed {m : StateM PointerReader α} {default : PointerReader → α}
    (hm : ∀ r, r.failed = false → Moved r (m r).2) : Moves (unlessFailed default m) := by
  intro r
  unfold PointerReader.unlessFailed
  split_ifs with h
  · exact Moved.refl r
  · exact hm r (by simpa using h)

theorem Moves.needing {m : StateM PointerReader α} {default : PointerReader → α} {n : ℕ}
    {message : Str} (hm : ∀ r, n ≤ r.remaining → Moved r (m r).2) :
    Moves (needing n message default m) := by
  refine Moves.unlessFailed fun r _ => ?_
  split_ifs with h
  · exact moved_fail r message
  · exact hm r (Nat.not_lt.mp h)

theorem moves_nextByte (r : PointerReader) : Moved r (nextByte r).2 := by
  unfold nextByte
  split_ifs with h
  · exact moved_fail r _
  · have hne : r.pos ≠ r.stop := by simpa [atEnd] using h
    refine ⟨rfl, rfl, Nat.le_succ _, fun hle => ?_⟩
    change r.pos + 1 ≤ r.stop
    omega

theorem moves_u8 : Moves rU8 := Moves.unlessFailed fun r _ => moves_nextByte r

theorem moves_be {w : ℕ} (n : ℕ) (v : BitVec w) : Moves (rBe n v) := by
  induction n generalizing v with
  | zero => exact moves_pure v
  | succ n ih => exact moves_u8.bind fun b => ih _

theorem moves_u16 : Moves rU16 := (moves_be 2 0).bind fun _ => moves_pure _

theorem moves_u32 : Moves rU32 := (moves_be 4 0).bind fun _ => moves_pure _

theorem moves_u64 : Moves rU64 := (moves_be 8 0).bind fun _ => moves_pure _

theorem moves_failIf (c : Bool) (message : Str) (a : α) : Moves (failIf c message a) := by
  intro r
  unfold failIf
  split_ifs
  · exact moved_fail r message
  · exact Moved.refl r

theorem moves_f64 : Moves readF64 := moves_u64.bind fun _ => moves_failIf _ _ _

theorem moves_checkLength (len : UInt32) :
    Moves (unlessFailed (fun _ => 0) (checkLength len)) := by
  refine Moves.unlessFailed fun r _ => ?_
  unfold checkLength
  split_ifs
  · exact moved_fail r _
  · exact Moved.refl r

theorem moves_length : Moves readLength := moves_u32.bind moves_checkLength

/-- The length that a reader returns which has not failed does not exceed what remains. -/
theorem readLength_le (h : (readLength r).2.failed = false) :
    (readLength r).1.toNat ≤ (readLength r).2.remaining := by
  change ((unlessFailed (fun _ => 0) (checkLength (rU32 r).1)) (rU32 r).2).2.failed = false at h
  change ((unlessFailed (fun _ => 0) (checkLength (rU32 r).1)) (rU32 r).2).1.toNat ≤
    ((unlessFailed (fun _ => 0) (checkLength (rU32 r).1)) (rU32 r).2).2.remaining
  generalize (rU32 r).2 = r' at h ⊢
  generalize (rU32 r).1 = len at h ⊢
  unfold unlessFailed checkLength at h ⊢
  split_ifs at h ⊢ with hfailed hlen
  · simp [hfailed] at h
  · simp at h
  · exact Nat.not_lt.mp hlen

theorem moves_prefixed : Moves readPrefixed := by
  intro r
  refine (moves_length r).trans ?_
  change Moved (readLength r).2 ((PointerReader.unlessFailed (fun _ => [])
    (take (readLength r).1.toNat)) (readLength r).2).2
  unfold PointerReader.unlessFailed
  split_ifs with h
  · exact Moved.refl _
  · exact moved_advance (readLength_le (by simpa using h))

theorem moves_raw (n : UInt32) : Moves (readRaw n) := Moves.needing fun _ h => moved_advance h

theorem moves_id : Moves readId :=
  Moves.needing fun r _ => (moves_u64.bind fun _ => moves_u64.bind fun _ => moves_pure _) r

theorem moves_sub (len : UInt32) : Moves (sub len) := Moves.needing fun _ h => moved_advance h

theorem moves_requireEnd : Moves requireEnd := by
  refine Moves.unlessFailed fun r _ => ?_
  split_ifs
  · exact Moved.refl r
  · exact moved_fail r _

end Moves

section Failed
variable {α β : Type} {r : PointerReader}

/-- A reader that has failed answers with a default value and keeps its state. -/
def Sticks (m : StateM PointerReader α) (default : PointerReader → α) : Prop :=
  ∀ r, r.failed = true → m r = (default r, r)

theorem sticks_unlessFailed (m : StateM PointerReader α) (default : PointerReader → α) :
    Sticks (unlessFailed default m) default := fun _ h => if_pos h

theorem Sticks.bind {m : StateM PointerReader α} {d : PointerReader → α}
    {f : α → StateM PointerReader β} {e : PointerReader → β} (hm : Sticks m d)
    (hf : ∀ r, r.failed = true → f (d r) r = (e r, r)) : Sticks (m >>= f) e := by
  intro r h
  rw [← hf r h]
  change f (m r).1 (m r).2 = f (d r) r
  rw [hm r h]

theorem Sticks.bind_pure {m : StateM PointerReader α} {d : PointerReader → α} (hm : Sticks m d)
    (g : α → β) : Sticks (do return g (← m)) fun r => g (d r) := hm.bind fun _ _ => rfl

theorem Sticks.map {m : StateM PointerReader α} {d : PointerReader → α} (hm : Sticks m d)
    (f : α → β) : Sticks (f <$> m) fun r => f (d r) := fun r h => by
  change (f (m r).1, (m r).2) = (f (d r), r)
  rw [hm r h]

theorem sticks_u8 : Sticks rU8 fun _ => 0 := sticks_unlessFailed _ _

theorem shiftIn_zero {w : ℕ} : shiftIn (0 : BitVec w) 0 = 0 := by simp [shiftIn]

theorem sticks_be {w : ℕ} (n : ℕ) : Sticks (rBe n (0 : BitVec w)) fun _ => 0 := by
  induction n with
  | zero => exact fun _ _ => rfl
  | succ n ih =>
    refine sticks_u8.bind fun r h => ?_
    rw [shiftIn_zero]
    exact ih r h

theorem sticks_u16 : Sticks rU16 fun _ => 0 := (sticks_be 2).bind_pure UInt16.ofBitVec

theorem sticks_u32 : Sticks rU32 fun _ => 0 := (sticks_be 4).bind_pure UInt32.ofBitVec

theorem sticks_u64 : Sticks rU64 fun _ => 0 := (sticks_be 8).bind_pure UInt64.ofBitVec

theorem sticks_f64 : Sticks readF64 fun _ => ⟨0⟩ := sticks_u64.bind fun _ _ => rfl

theorem sticks_length : Sticks readLength fun _ => 0 :=
  sticks_u32.bind fun r h => sticks_unlessFailed _ _ r h

theorem sticks_prefixed : Sticks readPrefixed fun _ => [] :=
  sticks_length.bind fun r h => sticks_unlessFailed _ _ r h

end Failed

section Attempts
variable {α β : Type} {r : PointerReader}

theorem bind_apply (m : StateM PointerReader α) (f : α → StateM PointerReader β) :
    (m >>= f) r = f (m r).1 (m r).2 := rfl

theorem return_apply (m : StateM PointerReader α) (g : α → β) :
    (do return g (← m) : StateM PointerReader β) r = (g (m r).1, (m r).2) := rfl

theorem map_fst (m : StateM PointerReader α) (f : α → β) : ((f <$> m) r).1 = f (m r).1 := rfl

theorem return_snd (m : StateM PointerReader α) (g : α → β) :
    ((do return g (← m) : StateM PointerReader β) r).2 = (m r).2 := rfl

@[simp] theorem advance_zero (r : PointerReader) : r.advance 0 = r := rfl

@[simp] theorem advance_advance (r : PointerReader) (m n : ℕ) :
    (r.advance m).advance n = r.advance (m + n) := by
  simp [advance, Nat.add_assoc]

@[simp] theorem remaining_advance (r : PointerReader) (n : ℕ) :
    (r.advance n).remaining = r.remaining - n := by
  simp [advance, remaining, Nat.sub_sub]

theorem slice_succ (hr : r.Sound) {n : ℕ} (hn : n < r.remaining) :
    r.slice (n + 1) = r.buffer.getD r.pos 0 :: (r.advance 1).slice n := by
  have hlt : r.pos < r.buffer.length := by
    have hstop := hr.stop_le
    unfold remaining at hn
    omega
  have hbyte : r.buffer.getD r.pos 0 = r.buffer[r.pos] := by
    rw [List.getD_eq_getElem?_getD, List.getElem?_eq_getElem hlt, Option.getD_some]
  rw [slice, slice, List.drop_eq_getElem_cons hlt, List.take_succ_cons, hbyte]
  rfl

theorem atEnd_iff (hr : r.Sound) : r.atEnd = true ↔ r.remaining = 0 := by
  have hle := hr.pos_le
  simp only [atEnd, remaining, beq_iff_eq]
  omega

theorem rU8_of_empty (hr : r.Sound) (ho : r.failed = false) (h : r.remaining = 0) :
    rU8 r = (0, r.fail (lit "unexpected end of buffer")) := by
  simp [rU8, unlessFailed, nextByte, ho, (atEnd_iff hr).mpr h]

theorem rU8_of_pos (hr : r.Sound) (ho : r.failed = false) (h : 0 < r.remaining) :
    rU8 r = (r.buffer.getD r.pos 0, r.advance 1) := by
  have hend : r.atEnd ≠ true := fun hend => h.ne' ((atEnd_iff hr).mp hend)
  simp [rU8, unlessFailed, nextByte, ho, hend]

/-- The loop in a reader that has failed. -/
theorem rBe_of_failed {w : ℕ} (n : ℕ) (v : BitVec w) (h : r.failed = true) :
    (rBe n v r).2 = r := by
  induction n generalizing v with
  | zero => rfl
  | succ n ih =>
    change (rBe n (shiftIn v (rU8 r).1) (rU8 r).2).2 = r
    rw [sticks_u8 r h]
    exact ih _

/-- The loop takes the bytes that it needs, -/
theorem rBe_of_le {w : ℕ} (hr : r.Sound) (ho : r.failed = false) {n : ℕ} (hn : n ≤ r.remaining)
    (v : BitVec w) : rBe n v r = ((r.slice n).foldl shiftIn v, r.advance n) := by
  induction n generalizing v r with
  | zero => simp [rBe, slice]; rfl
  | succ n ih =>
    have hnext : Moved r (r.advance 1) := moved_advance (by omega)
    have hleft : n ≤ (r.advance 1).remaining := by
      rw [remaining_advance]
      omega
    change rBe n (shiftIn v (rU8 r).1) (rU8 r).2 = _
    rw [rU8_of_pos hr ho (by omega), ih (hnext.sound hr) ho hleft, slice_succ hr hn,
      List.foldl_cons, advance_advance, Nat.add_comm]

/-- or all that are left. -/
theorem rBe_of_gt {w : ℕ} (hr : r.Sound) (ho : r.failed = false) {n : ℕ} (hn : r.remaining < n)
    (v : BitVec w) : (rBe n v r).2 =
      (r.advance r.remaining).fail (lit "unexpected end of buffer") := by
  induction n generalizing v r with
  | zero => cases hn
  | succ n ih =>
    change (rBe n (shiftIn v (rU8 r).1) (rU8 r).2).2 = _
    rcases Nat.eq_zero_or_pos r.remaining with hzero | hpos
    · rw [rU8_of_empty hr ho hzero, hzero, rBe_of_failed n _ (fail_failed r _), advance_zero]
    · have hnext : Moved r (r.advance 1) := moved_advance hpos
      have hleft : (r.advance 1).remaining < n := by
        rw [remaining_advance]
        omega
      have hsum : 1 + (r.remaining - 1) = r.remaining := by omega
      rw [rU8_of_pos hr ho hpos, ih (hnext.sound hr) ho hleft, remaining_advance,
        advance_advance, hsum]

/-- A read takes `n` bytes one at a time and then keeps them or refuses them. -/
structure Attempts (r r' : PointerReader) (n : ℕ) (keeps : Prop) : Prop where
  failed_iff : r'.failed = true ↔ ¬ (n ≤ r.remaining ∧ keeps)
  pos_eq : r'.failed = true → r'.pos = r.pos + min n r.remaining

/-- It is all or nothing when it finds no byte, or keeps all that it takes. -/
theorem Attempts.inPlace_iff {r' : PointerReader} {n : ℕ} {keeps : Prop}
    (h : Attempts r r' n keeps) : (r'.failed = true → r'.pos = r.pos) ↔
      n = 0 ∨ r.remaining = 0 ∨ n ≤ r.remaining ∧ keeps := by
  by_cases hfailed : r'.failed = true
  · have hpos := h.pos_eq hfailed
    have hnot := h.failed_iff.mp hfailed
    rw [imp_iff_right hfailed, hpos]
    constructor
    · intro heq
      omega
    · rintro (hzero | hzero | hkeeps)
      · omega
      · omega
      · exact absurd hkeeps hnot
  · have hkeeps : n ≤ r.remaining ∧ keeps := by
      by_contra hnot
      exact hfailed (h.failed_iff.mpr hnot)
    exact iff_of_true (fun hr' => absurd hr' hfailed) (.inr (.inr hkeeps))

/-- The read has run out of bytes. -/
theorem attempts_of_gt {r' : PointerReader} {n : ℕ} (keeps : Prop) {message : Str}
    (hn : r.remaining < n) (h : r' = (r.advance r.remaining).fail message) :
    Attempts r r' n keeps := by
  refine ⟨?_, fun _ => ?_⟩
  · rw [h, fail_failed]
    exact iff_of_true rfl fun hle => absurd hle.1 (Nat.not_le.mpr hn)
  · rw [h, fail_pos, Nat.min_eq_right hn.le]
    rfl

/-- The read has found its bytes, and fails where it stands if it refuses them. -/
theorem attempts_of_le {r' : PointerReader} {n : ℕ} {keeps : Prop} (hn : n ≤ r.remaining)
    (hfailed : r'.failed = true ↔ ¬ keeps) (hpos : ¬ keeps → r'.pos = r.pos + n) :
    Attempts r r' n keeps := by
  refine ⟨hfailed.trans (by simp [hn]), fun h => ?_⟩
  rw [hpos (hfailed.mp h), Nat.min_eq_left hn]

theorem attempts_be {w : ℕ} (hr : r.Sound) (ho : r.failed = false) (n : ℕ) (v : BitVec w) :
    Attempts r (rBe n v r).2 n True := by
  rcases Nat.lt_or_ge r.remaining n with hn | hn
  · exact attempts_of_gt True hn (rBe_of_gt hr ho hn v)
  · have hok : (rBe n v r).2.failed = false := by
      rw [rBe_of_le hr ho hn]
      exact ho
    exact attempts_of_le hn (by simp [hok]) fun h => absurd trivial h

theorem attempts_map {m : StateM PointerReader α} {n : ℕ} {keeps : Prop}
    (h : Attempts r (m r).2 n keeps) (f : α → β) : Attempts r ((f <$> m) r).2 n keeps := h

theorem attempts_return {m : StateM PointerReader α} {n : ℕ} {keeps : Prop}
    (h : Attempts r (m r).2 n keeps) (g : α → β) :
    Attempts r ((do return g (← m) : StateM PointerReader β) r).2 n keeps := h

theorem attempts_u8 (hr : r.Sound) (ho : r.failed = false) : Attempts r (rU8 r).2 1 True :=
  attempts_be hr ho 1 (0 : BitVec 8)

theorem attempts_u16 (hr : r.Sound) (ho : r.failed = false) : Attempts r (rU16 r).2 2 True :=
  attempts_return (attempts_be hr ho 2 0) UInt16.ofBitVec

theorem attempts_u32 (hr : r.Sound) (ho : r.failed = false) : Attempts r (rU32 r).2 4 True :=
  attempts_return (attempts_be hr ho 4 0) UInt32.ofBitVec

theorem attempts_u64 (hr : r.Sound) (ho : r.failed = false) : Attempts r (rU64 r).2 8 True :=
  attempts_return (attempts_be hr ho 8 0) UInt64.ofBitVec

theorem length_slice (hr : r.Sound) {n : ℕ} (hn : n ≤ r.remaining) : (r.slice n).length = n := by
  have hstop := hr.stop_le
  unfold remaining at hn
  rw [slice, List.length_take, List.length_drop]
  omega

theorem rU32_of_le (hr : r.Sound) (ho : r.failed = false) (hn : 4 ≤ r.remaining) :
    rU32 r = (UInt32.ofNat (value (r.slice 4)), r.advance 4) := by
  have hword : UInt32.ofBitVec ((r.slice 4).foldl shiftIn 0) = UInt32.ofNat (value (r.slice 4)) :=
    UInt32.toNat_inj.mp (by simp [toNat_foldl_shiftIn])
  rw [rU32, return_apply, rBe_of_le hr ho hn, hword]

theorem rU32_of_gt (hr : r.Sound) (ho : r.failed = false) (hn : r.remaining < 4) :
    (rU32 r).2 = (r.advance r.remaining).fail (lit "unexpected end of buffer") := by
  rw [rU32, return_snd, rBe_of_gt hr ho hn]

theorem rU64_of_le (hr : r.Sound) (ho : r.failed = false) (hn : 8 ≤ r.remaining) :
    rU64 r = (UInt64.ofNat (value (r.slice 8)), r.advance 8) := by
  have hword : UInt64.ofBitVec ((r.slice 8).foldl shiftIn 0) = UInt64.ofNat (value (r.slice 8)) :=
    UInt64.toNat_inj.mp (by simp [toNat_foldl_shiftIn])
  rw [rU64, return_apply, rBe_of_le hr ho hn, hword]

theorem rU64_of_gt (hr : r.Sound) (ho : r.failed = false) (hn : r.remaining < 8) :
    (rU64 r).2 = (r.advance r.remaining).fail (lit "unexpected end of buffer") := by
  rw [rU64, return_snd, rBe_of_gt hr ho hn]

theorem attempts_f64 (hr : r.Sound) (ho : r.failed = false) : Attempts r (readF64 r).2 8
    (F64.isFinite ⟨UInt64.ofNat (value (r.slice 8))⟩ = true) := by
  have hstate : (readF64 r).2 = if (!F64.isFinite ⟨(rU64 r).1⟩) = true then
      (rU64 r).2.fail (lit "NaN/Inf floating value rejected") else (rU64 r).2 := by
    rw [readF64, bind_apply, failIf, F64.isFinite, Bool.not_not]
  rcases Nat.lt_or_ge r.remaining 8 with hn | hn
  · have hshort := rU64_of_gt hr ho hn
    rw [hshort, fail_of_failed (fail_failed _ _), ite_self] at hstate
    exact attempts_of_gt _ hn hstate
  · rw [rU64_of_le hr ho hn] at hstate
    have hok : (r.advance 8).failed = false := ho
    cases hfinite : F64.isFinite ⟨UInt64.ofNat (value (r.slice 8))⟩ with
    | false =>
      simp only [hfinite, Bool.not_false, if_true] at hstate
      exact attempts_of_le hn (by simp [hstate]) fun _ => by rw [hstate, fail_pos]; rfl
    | true =>
      simp only [hfinite, Bool.not_true, Bool.false_eq_true, if_false] at hstate
      exact attempts_of_le hn (by simp [hstate, hok]) fun h => absurd rfl h

theorem attempts_length (hr : r.Sound) (ho : r.failed = false) :
    Attempts r (readLength r).2 4 (value (r.slice 4) ≤ r.remaining - 4) := by
  have hstate : (readLength r).2 =
      (unlessFailed (fun _ => 0) (checkLength (rU32 r).1) (rU32 r).2).2 := by
    rw [readLength, bind_apply]
  rcases Nat.lt_or_ge r.remaining 4 with hn | hn
  · have hshort := rU32_of_gt hr ho hn
    rw [hshort, sticks_unlessFailed _ _ _ (fail_failed _ _)] at hstate
    exact attempts_of_gt _ hn hstate
  · have hlt := value_lt (r.slice 4)
    rw [length_slice hr hn] at hlt
    have hlen : (UInt32.ofNat (value (r.slice 4))).toNat = value (r.slice 4) :=
      UInt32.toNat_ofNat_of_lt' hlt
    have hok : (r.advance 4).failed = false := ho
    rw [rU32_of_le hr ho hn] at hstate
    simp only [unlessFailed, checkLength, hok, hlen, remaining_advance, Bool.false_eq_true,
      if_false] at hstate
    split_ifs at hstate with hlong
    · refine attempts_of_le hn ?_ fun _ => by rw [hstate, fail_pos]; rfl
      rw [hstate, fail_failed]
      exact iff_of_true rfl (Nat.not_le.mpr hlong)
    · have hfits := Nat.not_lt.mp hlong
      exact attempts_of_le hn (by simp [hstate, hok, hfits]) fun h => absurd hfits h

/-- Behind an accepted length nothing fails. -/
theorem attempts_prefixed (hr : r.Sound) (ho : r.failed = false) :
    Attempts r (readPrefixed r).2 4 (value (r.slice 4) ≤ r.remaining - 4) := by
  have hstate : (readPrefixed r).2 =
      (unlessFailed (fun _ => []) (take (readLength r).1.toNat) (readLength r).2).2 := by
    rw [readPrefixed, bind_apply]
  have hlength := attempts_length hr ho
  cases hfailed : (readLength r).2.failed with
  | true => rwa [hstate, sticks_unlessFailed _ _ _ hfailed]
  | false =>
    have hok : (readPrefixed r).2.failed = false := by
      rw [hstate]
      simp only [unlessFailed, hfailed, Bool.false_eq_true, if_false]
      exact hfailed
    refine ⟨?_, fun h => by simp [hok] at h⟩
    rw [hok, ← hfailed]
    exact hlength.failed_iff

/-- If the read makes the reader fail, it leaves it where it was. -/
def InPlace (m : StateM PointerReader α) (r : PointerReader) : Prop :=
  (m r).2.failed = true → (m r).2.pos = r.pos

theorem InPlace.map {m : StateM PointerReader α} (h : InPlace m r) (f : α → β) :
    InPlace (f <$> m) r := h

/-- A read that is checked before it moves fails where it is. -/
theorem inPlace_needing {m : StateM PointerReader α} {default : PointerReader → α} {n : ℕ}
    {message : Str} (ho : r.failed = false) (hm : n ≤ r.remaining → (m r).2.failed = false) :
    InPlace (needing n message default m) r := by
  intro h
  simp only [needing, unlessFailed, ho, Bool.false_eq_true, if_false] at h ⊢
  split_ifs at h ⊢ with hn
  · exact fail_pos r message
  · rw [hm (Nat.not_lt.mp hn)] at h
    cases h

theorem inPlace_raw (ho : r.failed = false) (n : UInt32) : InPlace (readRaw n) r :=
  inPlace_needing ho fun _ => ho

theorem inPlace_sub (ho : r.failed = false) (len : UInt32) : InPlace (sub len) r :=
  inPlace_needing ho fun _ => ho

/-- The nested reader of a section lies in the bytes that are left. -/
theorem sound_sub (hr : r.Sound) (len : UInt32) :
    (sub len r).1.Sound ∧ (sub len r).1.buffer = r.buffer := by
  have hpos := hr.pos_le
  have hstop := hr.stop_le
  have hempty : (r.nested 0).Sound := ⟨le_rfl, hpos.trans hstop⟩
  cases hfailed : r.failed with
  | true =>
    rw [sub, needing, sticks_unlessFailed _ _ r hfailed]
    exact ⟨hempty, rfl⟩
  | false =>
    simp only [sub, needing, unlessFailed, hfailed, Bool.false_eq_true, if_false]
    split_ifs with hlen
    · exact ⟨hempty, rfl⟩
    have hroom : len.toNat ≤ r.stop - r.pos := Nat.not_lt.mp hlen
    refine ⟨⟨Nat.le_add_right _ _, ?_⟩, rfl⟩
    change r.pos + len.toNat ≤ r.buffer.length
    omega

/-- Sixteen bytes are enough for the two words. -/
theorem inPlace_id (hr : r.Sound) (ho : r.failed = false) : InPlace readId r := by
  refine inPlace_needing ho fun hn => ?_
  have hnext : Moved r (r.advance 8) := moved_advance (by omega)
  have hleft : 8 ≤ (r.advance 8).remaining := by
    rw [remaining_advance]
    omega
  rw [bind_apply, return_snd, rU64_of_le hr ho (by omega), rU64_of_le (hnext.sound hr) ho hleft]
  exact ho

theorem inPlace_requireEnd (ho : r.failed = false) : InPlace requireEnd r := by
  intro _
  simp only [requireEnd, unlessFailed, ho, Bool.false_eq_true, if_false]
  split_ifs
  · rfl
  · exact fail_pos r _

end Attempts

end PointerReader
end ServingObservatory
