import ServingObservatory.BigEndian
import ServingObservatory.Decoding
import ServingObservatory.Observation

/-!
# The binary writer and reader

The writer appends to a buffer and throws on a length that does not fit in 32
bits. The reader holds the bytes that are left and a failure flag that, once set,
turns every later read into a default value.
-/
namespace ServingObservatory
open BigEndian Decoding

/-- A write appends to the buffer or throws `std::runtime_error`. -/
abbrev BinaryWriter := StateT Bytes (Except Str)

namespace BinaryWriter

def append (bs : Bytes) : BinaryWriter Unit := modify (· ++ bs)

def writeU8 (v : UInt8) : BinaryWriter Unit := append [v]

def writeU16 (v : UInt16) : BinaryWriter Unit := append (putBe 2 v.toBitVec)

def writeU32 (v : UInt32) : BinaryWriter Unit := append (putBe 4 v.toBitVec)

def writeU64 (v : UInt64) : BinaryWriter Unit := append (putBe 8 v.toBitVec)

def writeI64 (v : Int64) : BinaryWriter Unit := writeU64 v.toUInt64

def writeBool (v : Bool) : BinaryWriter Unit := append [if v then 1 else 0]

def writeF32 (v : F32) : BinaryWriter Unit := writeU32 v.bits

def writeF64 (v : F64) : BinaryWriter Unit := writeU64 v.bits

/-- A 32-bit number, or the given exception. -/
def writeChecked (message : Str) (n : ℕ) : BinaryWriter Unit :=
  if n > 0xFFFFFFFF then throw message else writeU32 (UInt32.ofNat n)

def writeLen (n : ℕ) : BinaryWriter Unit := writeChecked (lit "length overflow") n

def writeCount (n : ℕ) : BinaryWriter Unit := writeChecked (lit "count overflow") n

def writeStr (s : Str) : BinaryWriter Unit := do
  writeLen s.length
  append s

def writeBytes (b : Bytes) : BinaryWriter Unit := do
  writeLen b.length
  append b

def writeId (v : Id128) : BinaryWriter Unit := append v.toBytes

/-- An optional section. -/
def writeIf (c : Bool) (m : BinaryWriter Unit) : BinaryWriter Unit := if c then m else pure ()

/-- The write succeeds and appends `out`. -/
def Writes (m : BinaryWriter Unit) (out : Bytes) : Prop :=
  ∀ buf, m.run buf = .ok ((), buf ++ out)

theorem writes_append (bs : Bytes) : Writes (append bs) bs := fun _ => rfl

theorem writes_pure : Writes (pure ()) [] := fun buf => by
  rw [List.append_nil]
  rfl

theorem Writes.bind {m k : BinaryWriter Unit} {out out' : Bytes} (hm : Writes m out)
    (hk : Writes k out') : Writes (m >>= fun _ => k) (out ++ out') := by
  intro buf
  rw [StateT.run_bind, hm buf, ← List.append_assoc]
  exact hk (buf ++ out)

theorem Writes.writeIf {m : BinaryWriter Unit} {out : Bytes} (hm : Writes m out) (c : Bool) :
    Writes (writeIf c m) (if c then out else []) := by
  cases c with
  | true => exact hm
  | false => exact writes_pure

theorem Writes.forM {α : Type} {f : α → BinaryWriter Unit} {out : α → Bytes} {l : List α}
    (h : ∀ x ∈ l, Writes (f x) (out x)) : Writes (l.forM f) (l.flatMap out) := by
  induction l with
  | nil => exact writes_pure
  | cons x l ih =>
    exact (h x List.mem_cons_self).bind (ih fun y hy => h y (List.mem_cons_of_mem _ hy))

/-- The write succeeds exactly when `p` holds, and then it appends `out`. -/
def Emits (m : BinaryWriter Unit) (p : Prop) (out : Bytes) : Prop :=
  ∀ buf res, m.run buf = .ok res ↔ p ∧ res = ((), buf ++ out)

theorem Writes.emits {m : BinaryWriter Unit} {out : Bytes} (h : Writes m out) :
    Emits m True out := by
  intro buf res
  rw [h buf, Except.ok.injEq, true_and, eq_comm]

theorem Emits.congr {m : BinaryWriter Unit} {p q : Prop} {out : Bytes} (h : Emits m p out)
    (hpq : p ↔ q) : Emits m q out := fun buf res => (h buf res).trans (and_congr_left' hpq)

theorem Emits.bind {m k : BinaryWriter Unit} {p q : Prop} {out out' : Bytes} (hm : Emits m p out)
    (hk : Emits k q out') : Emits (m >>= fun _ => k) (p ∧ q) (out ++ out') := by
  intro buf res
  rw [StateT.run_bind]
  cases hrun : m.run buf with
  | error e =>
    have hp : ¬ p := fun hp => by
      rw [(hm buf _).mpr ⟨hp, rfl⟩] at hrun
      cases hrun
    exact ⟨nofun, fun h => absurd h.1.1 hp⟩
  | ok r =>
    obtain ⟨hp, rfl⟩ := (hm buf r).mp hrun
    rw [← List.append_assoc]
    exact (hk (buf ++ out) res).trans ⟨fun h => ⟨⟨hp, h.1⟩, h.2⟩, fun h => ⟨h.1.2, h.2⟩⟩

theorem Emits.forM {α : Type} {f : α → BinaryWriter Unit} {p : α → Prop} {out : α → Bytes}
    (h : ∀ x, Emits (f x) (p x) (out x)) (l : List α) :
    Emits (l.forM f) (∀ x ∈ l, p x) (l.flatMap out) := by
  induction l with
  | nil => exact writes_pure.emits.congr (by simp)
  | cons x l ih => exact ((h x).bind ih).congr (List.forall_mem_cons).symm

/-- A writer that runs on an empty buffer. -/
theorem Emits.run_eq_ok_iff {m : BinaryWriter Unit} {p : Prop} {out : Bytes} (h : Emits m p out)
    (b : Bytes) : (m.run []).map Prod.snd = .ok b ↔ p ∧ b = out := by
  rw [Decoding.map_eq_ok]
  simp only [h [], List.nil_append]
  constructor
  · rintro ⟨_, ⟨hp, rfl⟩, rfl⟩
    exact ⟨hp, rfl⟩
  · rintro ⟨hp, rfl⟩
    exact ⟨_, ⟨hp, rfl⟩, rfl⟩

/-- Bytes that were computed before, and what is written with them. -/
theorem emits_of_except {e : Except Str Bytes} {p q : Prop} {b out : Bytes}
    {k : Bytes → BinaryWriter Unit} (he : ∀ b', e = .ok b' ↔ p ∧ b' = b) (hk : Emits (k b) q out) :
    Emits (do let b ← (liftM e : BinaryWriter Bytes); k b) (p ∧ q) out := by
  intro buf res
  cases hres : e with
  | error err =>
    have hnot : ¬ p := fun hp => by
      rw [(he b).mpr ⟨hp, rfl⟩] at hres
      cases hres
    exact ⟨nofun, fun h => absurd h.1.1 hnot⟩
  | ok b' =>
    obtain ⟨hp, rfl⟩ := (he b').mp hres
    exact (hk buf res).trans ⟨fun h => ⟨⟨hp, h.1⟩, h.2⟩, fun h => ⟨h.1.2, h.2⟩⟩

theorem writes_u8 (v : UInt8) : Writes (writeU8 v) [v] := writes_append _

theorem writes_bytes_forM (b : Bytes) : Writes (b.forM writeU8) b := by
  have h := Writes.forM (l := b) fun x _ => writes_u8 x
  rwa [List.flatMap_singleton'] at h

theorem writes_u16 (v : UInt16) : Writes (writeU16 v) (bytes 2 v.toNat) :=
  putBe_eq 2 v.toBitVec ▸ writes_append _

theorem writes_u32 (v : UInt32) : Writes (writeU32 v) (bytes 4 v.toNat) :=
  putBe_eq 4 v.toBitVec ▸ writes_append _

theorem writes_u64 (v : UInt64) : Writes (writeU64 v) (bytes 8 v.toNat) :=
  putBe_eq 8 v.toBitVec ▸ writes_append _

theorem writes_checked (message : Str) {n : ℕ} (h : n < 2 ^ 32) :
    Writes (writeChecked message n) (bytes 4 n) := by
  rw [writeChecked, if_neg (by omega)]
  have hw := writes_u32 (UInt32.ofNat n)
  rwa [UInt32.toNat_ofNat_of_lt' h] at hw

theorem emits_checked (message : Str) (n : ℕ) :
    Emits (writeChecked message n) (n < 2 ^ 32) (bytes 4 n) := by
  by_cases h : n < 2 ^ 32
  · exact (writes_checked message h).emits.congr (iff_of_true trivial h)
  · intro buf res
    rw [writeChecked, if_pos (by omega)]
    exact ⟨nofun, fun hn => absurd hn.1 h⟩

/-- A length and that many bytes. -/
def prefixed (s : Bytes) : Bytes := bytes 4 s.length ++ s

theorem emits_str (s : Str) : Emits (writeStr s) (s.length < 2 ^ 32) (prefixed s) :=
  ((emits_checked _ s.length).bind (writes_append s).emits).congr (by simp)

theorem emits_bytes (b : Bytes) : Emits (writeBytes b) (b.length < 2 ^ 32) (prefixed b) :=
  ((emits_checked _ b.length).bind (writes_append b).emits).congr (by simp)

end BinaryWriter

/-- The bytes from `p_` to `end_`, and the sticky failure. -/
structure BinaryReader where
  unread : Bytes
  failed : Bool := false
  err : Str := []

namespace BinaryReader

def remaining (r : BinaryReader) : ℕ := r.unread.length

def atEnd (r : BinaryReader) : Bool := r.unread.isEmpty

/-- The first failure keeps its message. -/
def fail (r : BinaryReader) (message : Str) : BinaryReader :=
  if r.failed then r else { r with failed := true, err := message }

/-- A read that a failed reader answers with a default value. -/
def unlessFailed {α : Type} (default : α) (m : StateM BinaryReader α) : StateM BinaryReader α :=
  fun r => if r.failed then (default, r) else m r

/-- A read that fails with a message when the condition holds. -/
def failIf {α : Type} (c : Bool) (message : Str) (a : α) : StateM BinaryReader α :=
  fun r => (a, if c then r.fail message else r)

/-- `*p_++`, bounds-checked. -/
def nextByte : StateM BinaryReader UInt8 := fun r =>
  match r.unread with
  | [] => (0, r.fail (lit "unexpected end of buffer"))
  | b :: rest => (b, { r with unread := rest })

def rU8 : StateM BinaryReader UInt8 := unlessFailed 0 nextByte

/-- The loop `v = (v << 8) | r_u8()`. -/
def rBe {w : ℕ} : ℕ → BitVec w → StateM BinaryReader (BitVec w)
  | 0, v => pure v
  | n + 1, v => do
    let b ← rU8
    rBe n (shiftIn v b)

def rU16 : StateM BinaryReader UInt16 := do return ⟨← rBe 2 0⟩

def rU32 : StateM BinaryReader UInt32 := do return ⟨← rBe 4 0⟩

def rU64 : StateM BinaryReader UInt64 := do return ⟨← rBe 8 0⟩

def readI64 : StateM BinaryReader Int64 := do return (← rU64).toInt64

def readBool : StateM BinaryReader Bool := do return (← rU8) != 0

def readF32 : StateM BinaryReader F32 := do return ⟨← rU32⟩

def readF64 : StateM BinaryReader F64 := do
  let v := ⟨← rU64⟩
  failIf (v.isNaN || v.isInf) (lit "NaN/Inf floating value rejected") v

/-- A declared length, unless it exceeds the remaining bytes. -/
def checkLength (len : UInt32) : StateM BinaryReader UInt32 := fun r =>
  if len.toNat > r.remaining then
    (0, r.fail (lit "declared length " ++ decimal len.toNat ++ lit " exceeds remaining " ++
      decimal r.remaining))
  else (len, r)

def readLength : StateM BinaryReader UInt32 := do
  let len ← rU32
  unlessFailed 0 (checkLength len)

/-- The next `n` bytes, all of which remain. -/
def take (n : ℕ) : StateM BinaryReader Bytes := fun r =>
  (r.unread.take n, { r with unread := r.unread.drop n })

/-- The bytes that follow a length. -/
def readPrefixed : StateM BinaryReader Bytes := do
  let len ← readLength
  unlessFailed [] (take len.toNat)

def readStr : StateM BinaryReader Str := readPrefixed

def readBytes : StateM BinaryReader Bytes := readPrefixed

/-- Exactly `n` bytes, without a length. -/
def readRaw (n : UInt32) : StateM BinaryReader Bytes :=
  unlessFailed [] fun r =>
    if n.toNat > r.remaining then ([], r.fail (lit "read_raw overruns buffer"))
    else take n.toNat r

/-- A nested reader over the next `len` bytes, or over none when they do not remain. -/
def sub (len : UInt32) : StateM BinaryReader BinaryReader :=
  unlessFailed { unread := [] } fun r =>
    if len.toNat > r.remaining then
      ({ unread := [] }, r.fail (lit "sub-section overruns buffer"))
    else ({ unread := r.unread.take len.toNat }, { r with unread := r.unread.drop len.toNat })

/-- A read that fails unless `n` bytes remain. -/
def needing {α : Type} (n : ℕ) (message : Str) (default : α) (m : StateM BinaryReader α) :
    StateM BinaryReader α :=
  fun r => if r.remaining < n then (default, r.fail message) else m r

def readId : StateM BinaryReader Id128 :=
  unlessFailed {} <| needing 16 (lit "truncated id") {} do
    let hi ← rU64
    let lo ← rU64
    return ⟨hi, lo⟩

/-- An optional section, with the value that stands for its absence. -/
def readIf {α : Type} (c : Bool) (default : α) (m : StateM BinaryReader α) :
    StateM BinaryReader α := if c then m else pure default

def readCount : StateM BinaryReader UInt64 := do return (← rU32).toUInt64

/-- No trailing garbage. -/
def requireEnd : StateM BinaryReader Bool :=
  unlessFailed false fun r =>
    if r.atEnd then (true, r)
    else (false, r.fail (lit "trailing garbage: " ++ decimal r.remaining ++ lit " bytes"))

end BinaryReader
end ServingObservatory
