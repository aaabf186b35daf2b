import Mathlib.Tactic

/-!
# Big-endian integers of a fixed width

The bytes of a natural number, most significant first, and the number of a byte
list. They are inverse within the width, and the shift-and-or loop over machine
words of eight bits a byte computes them.
-/
namespace ServingObservatory.BigEndian

/-- The lowest `n` bytes of `v`. -/
def bytes : ℕ → ℕ → List UInt8
  | 0, _ => []
  | n + 1, v => UInt8.ofNat (v / 256 ^ n) :: bytes n v

/-- The number spelled by a byte list. -/
def value (bs : List UInt8) : ℕ := bs.foldl (fun v b => v * 256 + b.toNat) 0

@[simp] theorem length_bytes (n v : ℕ) : (bytes n v).length = n := by
  induction n with
  | zero => rfl
  | succ n ih => simp [bytes, ih]

theorem foldl_value (v : ℕ) (bs : List UInt8) :
    bs.foldl (fun v b => v * 256 + b.toNat) v = v * 256 ^ bs.length + value bs := by
  induction bs generalizing v with
  | nil => simp [value]
  | cons b bs ih =>
    rw [value, List.foldl_cons, List.foldl_cons, ih, ih (0 * 256 + b.toNat), List.length_cons]
    ring

@[simp] theorem value_nil : value [] = 0 := rfl

@[simp] theorem value_cons (b : UInt8) (bs : List UInt8) :
    value (b :: bs) = b.toNat * 256 ^ bs.length + value bs := by
  rw [value, List.foldl_cons, foldl_value, Nat.zero_mul, Nat.zero_add]

theorem value_lt (bs : List UInt8) : value bs < 256 ^ bs.length := by
  induction bs with
  | nil => simp
  | cons b bs ih =>
    have hb : b.toNat < 256 := b.toNat_lt
    rw [value_cons, List.length_cons, pow_succ]
    calc b.toNat * 256 ^ bs.length + value bs
        < b.toNat * 256 ^ bs.length + 256 ^ bs.length := by omega
      _ = (b.toNat + 1) * 256 ^ bs.length := by ring
      _ ≤ 256 * 256 ^ bs.length := Nat.mul_le_mul_right _ hb
      _ = 256 ^ bs.length * 256 := by ring

@[simp] theorem value_bytes (n v : ℕ) : value (bytes n v) = v % 256 ^ n := by
  induction n with
  | zero => simp [bytes, Nat.mod_one]
  | succ n ih =>
    have hb : (UInt8.ofNat (v / 256 ^ n)).toNat = v / 256 ^ n % 256 := UInt8.toNat_ofNat'
    rw [bytes, value_cons, length_bytes, ih, hb, pow_succ, Nat.mod_mul, Nat.mul_comm, Nat.add_comm]

/-- Only the residue of the number matters. -/
theorem bytes_add_mul (n v k : ℕ) : bytes n (v + k * 256 ^ n) = bytes n v := by
  induction n generalizing k with
  | zero => rfl
  | succ n ih =>
    have hdiv : (v + k * 256 ^ (n + 1)) / 256 ^ n = v / 256 ^ n + k * 256 := by
      rw [pow_succ, show k * (256 ^ n * 256) = (k * 256) * 256 ^ n by ring,
        Nat.add_mul_div_right _ _ (by positivity)]
    have htail : v + k * 256 ^ (n + 1) = v + (k * 256) * 256 ^ n := by ring
    rw [bytes, bytes, hdiv, htail, ih]
    refine congrArg (· :: _) (UInt8.toNat_inj.mp ?_)
    simp [UInt8.toNat_ofNat']

@[simp] theorem bytes_value (bs : List UInt8) : bytes bs.length (value bs) = bs := by
  induction bs with
  | nil => rfl
  | cons b bs ih =>
    have hdiv : (b.toNat * 256 ^ bs.length + value bs) / 256 ^ bs.length = b.toNat := by
      rw [Nat.mul_comm, Nat.mul_add_div (by positivity), Nat.div_eq_of_lt (value_lt bs),
        Nat.add_zero]
    rw [List.length_cons, value_cons, bytes, hdiv, Nat.add_comm, bytes_add_mul, ih]
    simp

/-- A byte list starts with a number of any width that it is long enough for. -/
theorem exists_bytes_append {n : ℕ} {bs : List UInt8} (h : n ≤ bs.length) :
    ∃ v < 256 ^ n, bs = bytes n v ++ bs.drop n := by
  have hlen : (bs.take n).length = n := List.length_take_of_le h
  have hlt := value_lt (bs.take n)
  have hbytes := bytes_value (bs.take n)
  rw [hlen] at hlt hbytes
  refine ⟨value (bs.take n), hlt, ?_⟩
  rw [hbytes, List.take_append_drop]

/-- The upper bytes stand before the lower ones. -/
theorem bytes_add (m n v : ℕ) : bytes (m + n) v = bytes m (v / 256 ^ n) ++ bytes n v := by
  induction m with
  | zero => rw [Nat.zero_add, bytes, List.nil_append]
  | succ m ih =>
    rw [Nat.add_right_comm, bytes, bytes, ih, List.cons_append, Nat.div_div_eq_div_mul, ← pow_add,
      Nat.add_comm n m]

/-- Numbers within the width have different bytes. -/
theorem bytes_inj {n v w : ℕ} (hv : v < 256 ^ n) (hw : w < 256 ^ n)
    (h : bytes n v = bytes n w) : v = w := by
  have := congrArg value h
  rwa [value_bytes, value_bytes, Nat.mod_eq_of_lt hv, Nat.mod_eq_of_lt hw] at this

/-- The lower bytes determine a number with the rest of it. -/
theorem eq_of_bytes_eq {n v w : ℕ} (hhigh : v / 256 ^ n = w / 256 ^ n)
    (hlow : bytes n v = bytes n w) : v = w := by
  have hmod := congrArg value hlow
  rw [value_bytes, value_bytes] at hmod
  rw [← Nat.div_add_mod v (256 ^ n), ← Nat.div_add_mod w (256 ^ n), hhigh, hmod]

/-- One round of the reading loop, `v = (v << 8) | b`. -/
def shiftIn {w : ℕ} (v : BitVec w) (b : UInt8) : BitVec w := (v <<< 8) ||| b.toBitVec.setWidth w

theorem toNat_shiftIn {w : ℕ} (v : BitVec w) (b : UInt8) :
    (shiftIn v b).toNat = (v.toNat * 256 + b.toNat) % 2 ^ w := by
  have hb : b.toNat < 2 ^ 8 := b.toNat_lt
  rw [shiftIn, BitVec.toNat_or, BitVec.toNat_shiftLeft, BitVec.toNat_setWidth,
    UInt8.toNat_toBitVec, ← Nat.or_mod_two_pow, Nat.shiftLeft_eq, Nat.mul_comm,
    ← Nat.two_pow_add_eq_or_of_lt hb, Nat.mul_comm]

theorem toNat_foldl_shiftIn {w : ℕ} (v : BitVec w) (bs : List UInt8) :
    (bs.foldl shiftIn v).toNat = (v.toNat * 256 ^ bs.length + value bs) % 2 ^ w := by
  induction bs generalizing v with
  | nil => simp [Nat.mod_eq_of_lt v.isLt]
  | cons b bs ih =>
    rw [List.foldl_cons, ih, toNat_shiftIn, Nat.add_mod, Nat.mod_mul_mod, ← Nat.add_mod,
      value_cons, List.length_cons]
    ring_nf

/-- The bytes that the writer pushes, from the top byte down. -/
def putBe {w : ℕ} (n : ℕ) (v : BitVec w) : List UInt8 :=
  (List.range n).reverse.map fun i => ⟨(v >>> (8 * i)).setWidth 8⟩

theorem putBe_eq {w : ℕ} (n : ℕ) (v : BitVec w) : putBe n v = bytes n v.toNat := by
  induction n with
  | zero => rfl
  | succ n ih =>
    rw [putBe, List.range_succ, List.reverse_concat, List.map_cons, bytes]
    refine congrArg₂ _ (UInt8.toNat_inj.mp ?_) ih
    have hbyte : (UInt8.ofNat (v.toNat / 256 ^ n)).toNat = v.toNat / 256 ^ n % 256 :=
      UInt8.toNat_ofNat'
    rw [hbyte]
    simp [← UInt8.toNat_toBitVec, Nat.shiftRight_eq_div_pow, pow_mul]

end ServingObservatory.BigEndian
