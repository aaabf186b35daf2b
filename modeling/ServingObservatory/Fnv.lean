import Mathlib.Data.Int.ModEq
import Mathlib.Tactic

/-!
# Hashes that multiply after every byte

A running word takes a byte in by an exclusive or and is multiplied by an odd constant.
Every step can be undone, so two strings collide only through bytes that differ. With the
64-bit prime of FNV-1a, four bytes in a row are too few for a collision. The shifts and
multiplications of a finalizer can be undone as well.
-/
namespace ServingObservatory.Fnv

section Invertible
variable {p q : UInt64}

theorem mul_left_inj (hpq : p * q = 1) {x y : UInt64} : x * p = y * p ↔ x = y := by
  refine ⟨fun h => ?_, congrArg (· * p)⟩
  have hq := congrArg (· * q) h
  simpa [UInt64.mul_assoc, hpq] using hq

/-- A word and its shift determine the word, from its top bit down. -/
theorem eq_of_xor_shiftRight {w k : ℕ} (hk : 0 < k) {x y : BitVec w}
    (h : x ^^^ (x >>> k) = y ^^^ (y >>> k)) : x = y := by
  have hbit : ∀ d i, w ≤ i + d → x.getLsbD i = y.getLsbD i := by
    intro d
    induction d with
    | zero =>
      intro i hi
      rw [BitVec.getLsbD_of_ge x i hi, BitVec.getLsbD_of_ge y i hi]
    | succ d ih =>
      intro i hi
      have hi' := congrArg (fun z => z.getLsbD i) h
      have habove := ih (k + i) (by omega)
      simpa [BitVec.getLsbD_xor, BitVec.getLsbD_ushiftRight, habove] using hi'
  exact BitVec.eq_of_getLsbD_eq fun i _ => hbit w i (by omega)

variable (p)

/-- A byte is taken in. -/
def step (h : UInt64) (b : UInt8) : UInt64 := (h ^^^ b.toUInt64) * p

def fold (h : UInt64) (bs : List UInt8) : UInt64 := bs.foldl (step p) h

variable {p}

theorem step_inj (hpq : p * q = 1) {h h' : UInt64} {b b' : UInt8} :
    step p h b = step p h' b' ↔ h ^^^ b.toUInt64 = h' ^^^ b'.toUInt64 := mul_left_inj hpq

/-- The same bytes keep different words apart. -/
theorem fold_inj (hpq : p * q = 1) {h h' : UInt64} (bs : List UInt8) :
    fold p h bs = fold p h' bs ↔ h = h' := by
  induction bs generalizing h h' with
  | nil => rfl
  | cons b bs ih =>
    exact ih.trans ((step_inj hpq).trans (UInt64.xor_left_inj _))

theorem fold_append (h : UInt64) (as bs : List UInt8) :
    fold p h (as ++ bs) = fold p (fold p h as) bs := List.foldl_append

end Invertible

section Short
variable {p : UInt64}

/-- A byte changes the low byte of the word only. -/
theorem toNat_xor_div (h : UInt64) (b : UInt8) :
    (h ^^^ b.toUInt64).toNat / 256 = h.toNat / 256 := by
  have hb : b.toNat / 2 ^ 8 = 0 := Nat.div_eq_of_lt b.toNat_lt
  rw [UInt64.toNat_xor, UInt8.toNat_toUInt64, show 256 = 2 ^ 8 from rfl, Nat.xor_div_two_pow, hb,
    Nat.xor_zero]

theorem toNat_step (h : UInt64) (b : UInt8) :
    ((step p h b).toNat : ℤ) ≡ p.toNat * (h ^^^ b.toUInt64).toNat [ZMOD 2 ^ 64] := by
  rw [step, UInt64.toNat_mul, mul_comm (p.toNat : ℤ)]
  exact_mod_cast Nat.mod_modEq _ _

/-- Different bytes on the same word make a small difference, times the constant. -/
theorem step_sub_step (h : UInt64) {b b' : UInt8} (hb : b ≠ b') :
    ∃ e : ℤ, e ≠ 0 ∧ -255 ≤ e ∧ e ≤ 255 ∧
      ((step p h b).toNat : ℤ) - (step p h b').toNat ≡ p.toNat * e [ZMOD 2 ^ 64] := by
  have hdiv := toNat_xor_div h b
  have hdiv' := toNat_xor_div h b'
  refine ⟨(h ^^^ b.toUInt64).toNat - (h ^^^ b'.toUInt64).toNat, ?_, by omega, by omega, ?_⟩
  · intro he
    have hword : (h ^^^ b.toUInt64).toNat = (h ^^^ b'.toUInt64).toNat := by omega
    have hbyte := (UInt64.xor_right_inj h).mp (UInt64.toNat_inj.mp hword)
    exact hb (UInt8.toUInt64_inj.mp hbyte)
  · rw [mul_sub]
    exact (toNat_step h b).sub (toNat_step h b')

/-- Further bytes add a small difference before each multiplication. -/
theorem step_sub_step_of_modEq {h h' : UInt64} {d : ℤ}
    (hd : (h.toNat : ℤ) - h'.toNat ≡ d [ZMOD 2 ^ 64]) (b b' : UInt8) :
    ∃ e : ℤ, -510 ≤ e ∧ e ≤ 510 ∧
      ((step p h b).toNat : ℤ) - (step p h' b').toNat ≡ p.toNat * (d + e) [ZMOD 2 ^ 64] := by
  have hdiv := toNat_xor_div h b
  have hdiv' := toNat_xor_div h' b'
  refine ⟨((h ^^^ b.toUInt64).toNat - h.toNat) - ((h' ^^^ b'.toUInt64).toNat - h'.toNat), by omega,
    by omega, ((toNat_step h b).sub (toNat_step h' b')).trans ?_⟩
  rw [← mul_sub]
  refine Int.ModEq.mul_left _ ?_
  convert hd.add_right (((h ^^^ b.toUInt64).toNat : ℤ) - h.toNat -
    ((h' ^^^ b'.toUInt64).toNat - h'.toNat)) using 1
  ring

end Short

/-- The 64-bit prime of FNV. -/
def prime : UInt64 := 1099511628211

theorem prime_mul_inverse : prime * 14886173955864302971 = 1 := by decide

/-- Small differences at four bytes in a row do not cancel. -/
theorem first_eq_zero {e₀ e₁ e₂ e₃ : ℤ} (h₀ : -255 ≤ e₀ ∧ e₀ ≤ 255) (h₁ : -510 ≤ e₁ ∧ e₁ ≤ 510)
    (h₂ : -510 ≤ e₂ ∧ e₂ ≤ 510) (h₃ : -510 ≤ e₃ ∧ e₃ ≤ 510)
    (h : (prime.toNat : ℤ) * (prime.toNat * (prime.toNat * e₀ + e₁) + e₂) + e₃ ≡ 0
      [ZMOD 2 ^ 64]) : e₀ = 0 := by
  have hprime : (prime.toNat : ℤ) = 2 ^ 40 + 435 := rfl
  obtain ⟨k, hk⟩ := (Int.modEq_zero_iff_dvd.mp h)
  rw [hprime] at hk
  have hsplit : (82312875 * e₀ + 189225 * e₁ + 435 * e₂ + e₃) +
      2 ^ 40 * (567675 * e₀ + 870 * e₁ + e₂) =
      2 ^ 64 * (k - (2 ^ 56 + 1305 * 2 ^ 16) * e₀ - 2 ^ 16 * e₁) := by linarith
  have hlow : 82312875 * e₀ + 189225 * e₁ + 435 * e₂ + e₃ = 0 := by omega
  have hhigh : ∃ j, 567675 * e₀ + 870 * e₁ + e₂ = 2 ^ 24 * j := by
    refine ⟨k - (2 ^ 56 + 1305 * 2 ^ 16) * e₀ - 2 ^ 16 * e₁, ?_⟩
    omega
  obtain ⟨j, hj⟩ := hhigh
  have hsmall : -1 ≤ e₀ ∧ e₀ ≤ 1 := by omega
  have hnone : j = 0 := by omega
  subst hnone
  omega

section Prime
variable {h : UInt64}

/-- Hashes that a first byte has set apart stay apart over three further bytes. -/
theorem fold_ne_of_first_ne {a b : UInt8} (hab : a ≠ b) (u₁ u₂ u₃ v₁ v₂ v₃ : UInt8) :
    fold prime h [a, u₁, u₂, u₃] ≠ fold prime h [b, v₁, v₂, v₃] := by
  intro heq
  obtain ⟨e₀, hne, hlo, hhi, hd₀⟩ := step_sub_step (p := prime) h hab
  obtain ⟨e₁, hlo₁, hhi₁, hd₁⟩ := step_sub_step_of_modEq (p := prime) hd₀ u₁ v₁
  obtain ⟨e₂, hlo₂, hhi₂, hd₂⟩ := step_sub_step_of_modEq (p := prime) hd₁ u₂ v₂
  have hlast := (step_inj prime_mul_inverse).mp heq
  change step prime (step prime (step prime h a) u₁) u₂ ^^^ _ =
    step prime (step prime (step prime h b) v₁) v₂ ^^^ _ at hlast
  generalize step prime (step prime (step prime h a) u₁) u₂ = x at hlast hd₂
  generalize step prime (step prime (step prime h b) v₁) v₂ = y at hlast hd₂
  have hx := toNat_xor_div x u₃
  have hy := toNat_xor_div y v₃
  rw [hlast] at hx
  have hsmall : -510 ≤ (y.toNat : ℤ) - x.toNat ∧ (y.toNat : ℤ) - x.toNat ≤ 510 := by omega
  refine hne (first_eq_zero ⟨hlo, hhi⟩ ⟨hlo₁, hhi₁⟩ ⟨hlo₂, hhi₂⟩ hsmall ?_)
  have hzero := hd₂.symm.add_right ((y.toNat : ℤ) - x.toNat)
  rwa [sub_add_sub_cancel, sub_self] at hzero

/-- Strings of at most four bytes and one length have different hashes. -/
theorem eq_of_fold_eq_of_le {u v : List UInt8} (hlen : u.length = v.length) (hshort : u.length ≤ 4)
    (heq : fold prime h u = fold prime h v) : u = v := by
  induction u generalizing h v with
  | nil => exact (List.eq_nil_of_length_eq_zero hlen.symm).symm
  | cons a u ih =>
    cases v with
    | nil => cases hlen
    | cons b v =>
      have hlen' : u.length = v.length := Nat.succ.inj hlen
      by_cases hab : a = b
      · subst hab
        rw [ih hlen' (Nat.le_of_succ_le hshort) heq]
      · have hshort' : u.length ≤ 3 := Nat.le_of_succ_le_succ hshort
        let z : List UInt8 := List.replicate (3 - u.length) 0
        have hu : (u ++ z).length = 3 := by simp [z, hshort']
        have hv : (v ++ z).length = 3 := by simp [z, ← hlen', hshort']
        obtain ⟨u₁, u₂, u₃, hu⟩ := List.length_eq_three.mp hu
        obtain ⟨v₁, v₂, v₃, hv⟩ := List.length_eq_three.mp hv
        have hpad : fold prime h (a :: u ++ z) = fold prime h (b :: v ++ z) := by
          rw [fold_append, fold_append, heq]
        rw [List.cons_append, List.cons_append, hu, hv] at hpad
        exact absurd hpad (fold_ne_of_first_ne hab u₁ u₂ u₃ v₁ v₂ v₃)

/-- A collision needs differences that are further apart. -/
theorem eq_of_fold_eq {x u v y : List UInt8} (hlen : u.length = v.length) (hshort : u.length ≤ 4)
    (heq : fold prime h (x ++ u ++ y) = fold prime h (x ++ v ++ y)) : u = v := by
  simp only [fold_append] at heq
  exact eq_of_fold_eq_of_le hlen hshort ((fold_inj prime_mul_inverse y).mp heq)

end Prime
end ServingObservatory.Fnv
