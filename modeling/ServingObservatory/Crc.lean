import Mathlib.Tactic

/-!
# Reflected cyclic redundancy checks

A remainder of `w` bits is shifted right, and a polynomial is added for every one
that falls out. The shift is linear, and injective when the polynomial has its top
bit. Bytes enter at the low end, so as many bytes as the width holds act as one word.
-/
namespace ServingObservatory.Crc
variable {w : ℕ} (poly : BitVec w)

/-- One bit of a remainder. The mask is all ones when the low bit is set. -/
def shift (c : BitVec w) : BitVec w := (c >>> 1) ^^^ (poly &&& -(c &&& 1#w))

theorem shift_eq (c : BitVec w) :
    shift poly c = if c.getLsbD 0 then (c >>> 1) ^^^ poly else c >>> 1 := by
  have hand : c &&& 1#w = (BitVec.ofBool (c.getLsbD 0)).setWidth w :=
    BitVec.and_one_eq_setWidth_ofBool_getLsbD
  cases hc : c.getLsbD 0 with
  | true =>
    have hone : (BitVec.ofBool true).setWidth w = 1#w := by
      apply BitVec.eq_of_toNat_eq
      simp
    rw [shift, hand, hc, hone, BitVec.neg_one_eq_allOnes, BitVec.and_allOnes]
    rfl
  | false =>
    have hzero : (BitVec.ofBool false).setWidth w = 0#w := by
      apply BitVec.eq_of_toNat_eq
      simp
    rw [shift, hand, hc, hzero]
    simp

theorem shift_xor (c d : BitVec w) : shift poly (c ^^^ d) = shift poly c ^^^ shift poly d := by
  simp only [shift_eq, BitVec.getLsbD_xor, BitVec.ushiftRight_xor_distrib]
  cases c.getLsbD 0 <;> cases d.getLsbD 0 <;> ext i <;> simp <;> grind

/-- The top bit of the polynomial shows whether a one fell out. -/
theorem eq_zero_of_shift_eq_zero (hpoly : poly.msb = true) {c : BitVec w}
    (h : shift poly c = 0#w) : c = 0#w := by
  have hw : 0 < w := by
    by_contra hw
    obtain rfl : w = 0 := by omega
    simp [BitVec.msb, BitVec.getMsbD] at hpoly
  rw [shift_eq] at h
  split at h
  · rename_i hc
    have htop : ((c >>> 1) ^^^ poly).getLsbD (w - 1) = true := by
      rw [BitVec.msb_eq_getLsbD_last] at hpoly
      rw [BitVec.getLsbD_xor, hpoly, BitVec.getLsbD_ushiftRight,
        BitVec.getLsbD_of_ge c (1 + (w - 1)) (by omega)]
      rfl
    rw [h] at htop
    simp at htop
  · rename_i hc
    have hdiv : c.toNat / 2 = 0 := by
      have := congrArg BitVec.toNat h
      simpa [Nat.shiftRight_eq_div_pow] using this
    have hmod : c.toNat % 2 = 0 := by
      have hbit : c.toNat.testBit 0 = false := by simpa [BitVec.getLsbD] using hc
      simpa using hbit
    apply BitVec.eq_of_toNat_eq
    simp
    omega

theorem shift_injective (hpoly : poly.msb = true) : (shift poly).Injective := by
  intro c d h
  have hxor : shift poly (c ^^^ d) = 0#w := by rw [shift_xor, h, BitVec.xor_self]
  exact BitVec.xor_eq_zero_iff.mp (eq_zero_of_shift_eq_zero poly hpoly hxor)

theorem iterate_shift_xor (n : ℕ) (c d : BitVec w) :
    (shift poly)^[n] (c ^^^ d) = (shift poly)^[n] c ^^^ (shift poly)^[n] d := by
  induction n generalizing c d with
  | zero => rfl
  | succ n ih => rw [Function.iterate_succ_apply, shift_xor, ih]; rfl

/-- Zeros that fall out leave the rest unchanged. -/
theorem iterate_shift_shiftLeft (n : ℕ) {v : BitVec w} (hv : v.toNat * 2 ^ n < 2 ^ w) :
    (shift poly)^[n] (v <<< n) = v := by
  induction n with
  | zero => simp
  | succ n ih =>
    have hle : v.toNat * 2 ^ n * 2 < 2 ^ w := by rwa [mul_assoc, ← pow_succ]
    have hn : (v <<< n).toNat = v.toNat * 2 ^ n := by
      rw [BitVec.toNat_shiftLeft, Nat.shiftLeft_eq, Nat.mod_eq_of_lt (by omega)]
    have hsucc : (v <<< (n + 1)).toNat = v.toNat * 2 ^ n * 2 := by
      rw [BitVec.toNat_shiftLeft, Nat.shiftLeft_eq, pow_succ, ← mul_assoc, Nat.mod_eq_of_lt hle]
    have hlow : (v <<< (n + 1)).getLsbD 0 = false := by simp
    have hone : shift poly (v <<< (n + 1)) = v <<< n := by
      rw [shift_eq, hlow]
      apply BitVec.eq_of_toNat_eq
      simp only [Bool.false_eq_true, if_false, BitVec.toNat_ushiftRight, hsucc, hn,
        Nat.shiftRight_eq_div_pow, pow_one]
      omega
    rw [Function.iterate_succ_apply, hone]
    exact ih (by omega)

/-- A byte is added at the low end and shifted out. -/
def absorb (c : BitVec w) (b : UInt8) : BitVec w :=
  (shift poly)^[8] (c ^^^ b.toBitVec.setWidth w)

/-- The remainder after a byte list. -/
def remainder (c : BitVec w) (bs : List UInt8) : BitVec w := bs.foldl (absorb poly) c

theorem remainder_append (c : BitVec w) (bs bs' : List UInt8) :
    remainder poly c (bs ++ bs') = remainder poly (remainder poly c bs) bs' :=
  List.foldl_append

theorem remainder_injective (hpoly : poly.msb = true) (bs : List UInt8) :
    (fun c => remainder poly c bs).Injective := by
  induction bs with
  | nil => exact Function.injective_id
  | cons b bs ih =>
    intro c d h
    have hbyte := (shift_injective poly hpoly).iterate 8 (ih h)
    exact (BitVec.xor_left_inj _).mp hbyte

/-- The word that a byte list spells, first byte lowest. -/
def word (w : ℕ) : List UInt8 → BitVec w
  | [] => 0
  | b :: bs => b.toBitVec.setWidth w ^^^ (word w bs <<< 8)

theorem toNat_word_lt {bs : List UInt8} (h : 8 * bs.length ≤ w) :
    (word w bs).toNat < 2 ^ (8 * bs.length) := by
  induction bs with
  | nil => simp [word]
  | cons b bs ih =>
    rw [List.length_cons] at h ⊢
    have hb : (b.toBitVec.setWidth w).toNat < 2 ^ (8 * (bs.length + 1)) := by
      have hlt : b.toNat < 2 ^ 8 := b.toNat_lt
      have hpow : 2 ^ 8 ≤ 2 ^ (8 * (bs.length + 1)) := Nat.pow_le_pow_right (by omega) (by omega)
      calc (b.toBitVec.setWidth w).toNat ≤ b.toNat := by
            simpa using Nat.mod_le _ _
        _ < 2 ^ (8 * (bs.length + 1)) := by omega
    have hs : (word w bs <<< 8).toNat < 2 ^ (8 * (bs.length + 1)) := by
      have hlt := ih (by omega)
      calc (word w bs <<< 8).toNat ≤ (word w bs).toNat * 2 ^ 8 := by
            rw [BitVec.toNat_shiftLeft, Nat.shiftLeft_eq]
            exact Nat.mod_le _ _
        _ < 2 ^ (8 * bs.length) * 2 ^ 8 := Nat.mul_lt_mul_of_pos_right hlt (by omega)
        _ = 2 ^ (8 * (bs.length + 1)) := by rw [← pow_add]; ring_nf
    rw [word, BitVec.toNat_xor]
    exact Nat.xor_lt_two_pow hb hs

/-- A short word survives the shift by which a byte is absorbed before it. -/
theorem iterate_shift_word {b : UInt8} {bs : List UInt8} (h : 8 * (b :: bs).length ≤ w) :
    (shift poly)^[8] (word w bs <<< 8) = word w bs := by
  rw [List.length_cons] at h
  apply iterate_shift_shiftLeft
  have hlt : (word w bs).toNat < 2 ^ (8 * bs.length) := toNat_word_lt (by omega)
  calc (word w bs).toNat * 2 ^ 8 < 2 ^ (8 * bs.length) * 2 ^ 8 :=
        Nat.mul_lt_mul_of_pos_right hlt (by omega)
    _ = 2 ^ (8 * bs.length + 8) := (pow_add 2 _ _).symm
    _ ≤ 2 ^ w := Nat.pow_le_pow_right (by omega) (by omega)

/-- Bytes that fit in a remainder are absorbed as one word. -/
theorem remainder_eq {bs : List UInt8} (h : 8 * bs.length ≤ w) (c : BitVec w) :
    remainder poly c bs = (shift poly)^[8 * bs.length] (c ^^^ word w bs) := by
  induction bs generalizing c with
  | nil => simp [remainder, word]
  | cons b bs ih =>
    have htail : 8 * bs.length ≤ w := by
      rw [List.length_cons] at h
      omega
    calc remainder poly c (b :: bs)
        = (shift poly)^[8 * bs.length] (absorb poly c b ^^^ word w bs) := ih htail _
      _ = (shift poly)^[8 * bs.length] ((shift poly)^[8] (c ^^^ word w (b :: bs))) := by
          rw [absorb, word, ← BitVec.xor_assoc, iterate_shift_xor poly 8 (c ^^^ _),
            iterate_shift_word poly h]
      _ = (shift poly)^[8 * (b :: bs).length] (c ^^^ word w (b :: bs)) := by
          rw [← Function.iterate_add_apply, List.length_cons, mul_add]

theorem word_inj {bs bs' : List UInt8} (h : 8 * bs.length ≤ w) (hlen : bs.length = bs'.length)
    (heq : word w bs = word w bs') : bs = bs' := by
  induction bs generalizing bs' with
  | nil => exact (List.length_eq_zero_iff.mp hlen.symm).symm
  | cons b bs ih =>
    cases bs' with
    | nil => cases hlen
    | cons b' bs' =>
      have hlen' : bs.length = bs'.length := Nat.succ.inj hlen
      have hw : 8 * bs.length + 8 ≤ w := h
      rw [word, word] at heq
      have hb : b = b' := by
        apply UInt8.eq_of_toBitVec_eq
        ext i hi
        have hbit := congrArg (fun c => c.getLsbD i) heq
        have hiw : i < w := by omega
        simpa [hi, hiw] using hbit
      subst hb
      have hshift : word w bs <<< 8 = word w bs' <<< 8 := (BitVec.xor_right_inj _).mp heq
      have htail : word w bs = word w bs' := by
        rw [← iterate_shift_word 0 h, hshift]
        exact iterate_shift_word 0 (b := b) (by rw [List.length_cons]; omega)
      rw [ih (by omega) hlen' htail]

/-- Equal remainders of strings that differ only in a stretch as wide as the remainder. -/
theorem burst_inj (hpoly : poly.msb = true) {c : BitVec w} {m m' front back : List UInt8}
    (hm : 8 * m.length ≤ w) (hlen : m.length = m'.length)
    (h : remainder poly c (front ++ (m ++ back)) = remainder poly c (front ++ (m' ++ back))) :
    m = m' := by
  simp only [remainder_append] at h
  have hfold : remainder poly (remainder poly c front) m =
      remainder poly (remainder poly c front) m' := remainder_injective poly hpoly back h
  rw [remainder_eq poly hm, remainder_eq poly (hlen.symm ▸ hm : 8 * m'.length ≤ w), hlen] at hfold
  have hword := (shift_injective poly hpoly).iterate _ hfold
  exact word_inj hm hlen ((BitVec.xor_right_inj _).mp hword)

end ServingObservatory.Crc
