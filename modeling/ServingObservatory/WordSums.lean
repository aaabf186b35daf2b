import Mathlib.Tactic

/-!
# Sums of machine words

A loop that adds words keeps the sum of their values modulo 2^64. It can come out as
zero although a value was added.
-/
namespace ServingObservatory.WordSums
variable {α : Type*} (f : α → UInt64)

/-- The sum of the values, without a bound. -/
def total (l : List α) : ℕ := (l.map fun a => (f a).toNat).sum

theorem total_eq_zero_iff (l : List α) : total f l = 0 ↔ ∀ a ∈ l, f a = 0 := by
  simp [total, List.sum_eq_zero_iff, ← UInt64.toNat_inj]

/-- A loop whose every step adds to a part of the state. -/
theorem foldl_part {σ : Type*} {step : σ → α → σ} (part : σ → UInt64) {f : α → ℕ}
    (hstep : ∀ s a, part (step s a) = part s + UInt64.ofNat (f a)) (l : List α) (s : σ) :
    part (l.foldl step s) = part s + UInt64.ofNat (l.map f).sum := by
  induction l generalizing s with
  | nil => simp
  | cons a l ih =>
    rw [List.foldl_cons, ih, hstep, List.map_cons, List.sum_cons, UInt64.ofNat_add,
      UInt64.add_assoc]

/-- A loop whose every step leaves a part of the state alone. -/
theorem foldl_frame {σ β : Type*} {step : σ → α → σ} (part : σ → β)
    (hstep : ∀ s a, part (step s a) = part s) (l : List α) (s : σ) :
    part (l.foldl step s) = part s := by
  induction l generalizing s with
  | nil => rfl
  | cons a l ih => rw [List.foldl_cons, ih, hstep]

/-- An adding loop. -/
theorem foldl_add (l : List α) (s : UInt64) :
    l.foldl (fun s a => s + f a) s = s + UInt64.ofNat (total f l) :=
  foldl_part id (fun s a => by rw [UInt64.ofNat_toNat]; rfl) l s

/-- A loop that adds for some elements only. -/
theorem foldl_add_if (p : α → Prop) [DecidablePred p] (l : List α) (s : UInt64) :
    l.foldl (fun s a => if p a then s + f a else s) s =
      s + UInt64.ofNat (l.map fun a => if p a then (f a).toNat else 0).sum := by
  refine foldl_part id (fun s a => ?_) l s
  by_cases h : p a <;> simp [h]

/-- Adding one for some elements counts them. -/
theorem sum_ite_one (p : α → Prop) [DecidablePred p] (l : List α) :
    (l.map fun a => if p a then 1 else 0).sum = l.countP fun a => decide (p a) := by
  induction l with
  | nil => rfl
  | cons a l ih =>
    rw [List.map_cons, List.sum_cons, ih, List.countP_cons, add_comm]
    simp

/-- Wrapping the summands does not change a sum that wraps. -/
theorem ofNat_total_ofNat (f : α → ℕ) (l : List α) :
    UInt64.ofNat (total (fun a => UInt64.ofNat (f a)) l) = UInt64.ofNat (l.map f).sum := by
  induction l with
  | nil => rfl
  | cons a l ih =>
    rw [total, List.map_cons, List.sum_cons, List.map_cons, List.sum_cons, UInt64.ofNat_add,
      UInt64.ofNat_add, UInt64.ofNat_toNat, ← ih]
    rfl

theorem ofNat_eq_zero_iff (n : ℕ) : UInt64.ofNat n = 0 ↔ 2 ^ 64 ∣ n := by
  rw [← UInt64.toNat_inj, UInt64.toNat_ofNat', UInt64.toNat_zero, Nat.dvd_iff_mod_eq_zero]

theorem ofNat_pos_iff (n : ℕ) : 0 < UInt64.ofNat n ↔ ¬ 2 ^ 64 ∣ n := by
  rw [UInt64.pos_iff_ne_zero, ne_eq, ofNat_eq_zero_iff]

end ServingObservatory.WordSums
