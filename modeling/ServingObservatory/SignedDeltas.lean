import Mathlib.Tactic

/-!
# Differences of unsigned words as signed words

Two unsigned words are cast to signed words and then subtracted. Words of the upper half
turn negative in the cast, so the difference is the one of the unsigned values when both
words lie in the same half, and is wrong or out of range when they do not.
-/
namespace ServingObservatory.SignedDeltas

/-- `static_cast<i64>(b) - static_cast<i64>(a)`. It wraps where the subtraction is undefined. -/
def delta (a b : UInt64) : Int64 := b.toInt64 - a.toInt64

/-- The subtraction of the cast words overflows, which leaves it undefined. -/
def Overflows (a b : UInt64) : Prop :=
  b.toInt64.toInt - a.toInt64.toInt < -2 ^ 63 ∨ 2 ^ 63 ≤ b.toInt64.toInt - a.toInt64.toInt

/-- A defined subtraction that gives the difference of the unsigned values. -/
def Exact (a b : UInt64) : Prop :=
  ¬ Overflows a b ∧ (delta a b).toInt = (b.toNat : ℤ) - a.toNat

/-- Both words are below 2^63, or none is. -/
def SameHalf (a b : UInt64) : Prop := a.toNat < 2 ^ 63 ↔ b.toNat < 2 ^ 63

instance (a b : UInt64) : Decidable (SameHalf a b) := inferInstanceAs (Decidable (_ ↔ _))

theorem toInt_toInt64 (a : UInt64) :
    a.toInt64.toInt = if a.toNat < 2 ^ 63 then (a.toNat : ℤ) else a.toNat - 2 ^ 64 := by
  have hcast : a.toInt64.toInt = a.toBitVec.toInt := rfl
  have hlt : a.toNat < 2 ^ 64 := a.toNat_lt
  rw [hcast, BitVec.toInt_eq_toNat_cond, UInt64.toNat_toBitVec]
  split_ifs <;> omega

theorem toInt_delta {a b : UInt64} (h : ¬ Overflows a b) :
    (delta a b).toInt = b.toInt64.toInt - a.toInt64.toInt := by
  unfold Overflows at h
  rw [delta, Int64.toInt_sub, Int.bmod_eq_of_le] <;> omega

/-- The cast difference is exact within one half of the words and nowhere else. -/
theorem exact_iff (a b : UInt64) : Exact a b ↔ SameHalf a b := by
  have ha := a.toNat_lt
  have hb := b.toNat_lt
  have hexact : Exact a b ↔
      ¬ Overflows a b ∧ b.toInt64.toInt - a.toInt64.toInt = (b.toNat : ℤ) - a.toNat :=
    and_congr_right fun h => by rw [toInt_delta h]
  rw [hexact]
  unfold Overflows SameHalf
  rw [toInt_toInt64, toInt_toInt64]
  split_ifs <;> omega

theorem exact_zero : Exact 0 0 := (exact_iff 0 0).mpr Iff.rfl

end ServingObservatory.SignedDeltas
