import Mathlib.Tactic

/-!
# Numerals in a base

A numeral stands for the value of its digits in a base, and a width determines the digits
of a number. A reader of a smaller base stops at the first digit that is too large and
weighs the others less. It finds the same value only when nothing but the last digit counts.
-/
namespace ServingObservatory.Numerals

/-- The value of digits, most significant first. -/
def value (b : ℕ) (ds : List ℕ) : ℕ := ds.foldl (fun n d => n * b + d) 0

variable {b b' : ℕ}

theorem foldl_value (n : ℕ) (ds : List ℕ) :
    ds.foldl (fun n d => n * b + d) n = n * b ^ ds.length + value b ds := by
  induction ds generalizing n with
  | nil => simp [value]
  | cons d ds ih =>
    rw [value, List.foldl_cons, List.foldl_cons, ih, ih (0 * b + d), List.length_cons]
    ring

theorem value_cons (d : ℕ) (ds : List ℕ) : value b (d :: ds) = d * b ^ ds.length + value b ds := by
  rw [value, List.foldl_cons, foldl_value, Nat.zero_mul, Nat.zero_add]

theorem value_lt {ds : List ℕ} (h : ∀ d ∈ ds, d < b) : value b ds < b ^ ds.length := by
  induction ds with
  | nil => simp [value]
  | cons d ds ih =>
    obtain ⟨hd, hds⟩ := List.forall_mem_cons.mp h
    have hrest := ih hds
    rw [value_cons, List.length_cons, pow_succ']
    calc d * b ^ ds.length + value b ds
        < d * b ^ ds.length + b ^ ds.length := by omega
      _ = (d + 1) * b ^ ds.length := by ring
      _ ≤ b * b ^ ds.length := Nat.mul_le_mul_right _ hd

/-- The lowest `n` digits of a number, most significant first. -/
def digits (b : ℕ) : ℕ → ℕ → List ℕ
  | 0, _ => []
  | n + 1, v => v / b ^ n % b :: digits b n v

@[simp] theorem length_digits (b n v : ℕ) : (digits b n v).length = n := by
  induction n with
  | zero => rfl
  | succ n ih => simp [digits, ih]

theorem lt_of_mem_digits (hb : 0 < b) {n v d : ℕ} (h : d ∈ digits b n v) : d < b := by
  induction n with
  | zero => cases h
  | succ n ih =>
    rcases List.mem_cons.mp h with rfl | h
    · exact Nat.mod_lt _ hb
    · exact ih h

@[simp] theorem value_digits (b n v : ℕ) : value b (digits b n v) = v % b ^ n := by
  induction n with
  | zero => simp [digits, value, Nat.mod_one]
  | succ n ih =>
    rw [digits, value_cons, length_digits, ih, pow_succ, Nat.mod_mul, Nat.mul_comm, Nat.add_comm]

/-- The digits of a number depend on its residue. -/
theorem digits_add_mul (hb : 0 < b) (n v k : ℕ) : digits b n (v + k * b ^ n) = digits b n v := by
  induction n generalizing k with
  | zero => rfl
  | succ n ih =>
    have hdiv : (v + k * b ^ (n + 1)) / b ^ n = v / b ^ n + k * b := by
      rw [pow_succ', ← mul_assoc, Nat.add_mul_div_right _ _ (by positivity)]
    have htail : v + k * b ^ (n + 1) = v + (k * b) * b ^ n := by ring
    rw [digits, digits, hdiv, htail, ih, Nat.add_mul_mod_self_right]

@[simp] theorem digits_value {ds : List ℕ} (h : ∀ d ∈ ds, d < b) :
    digits b ds.length (value b ds) = ds := by
  induction ds with
  | nil => rfl
  | cons d ds ih =>
    obtain ⟨hd, hds⟩ := List.forall_mem_cons.mp h
    have hb : 0 < b := Nat.zero_lt_of_lt hd
    have hdiv : (d * b ^ ds.length + value b ds) / b ^ ds.length = d := by
      rw [Nat.mul_comm, Nat.mul_add_div (by positivity), Nat.div_eq_of_lt (value_lt hds),
        Nat.add_zero]
    rw [List.length_cons, value_cons, digits, hdiv, Nat.mod_eq_of_lt hd, Nat.add_comm,
      digits_add_mul hb, ih hds]

theorem le_foldl (hb : 0 < b) (n : ℕ) (ds : List ℕ) : n ≤ ds.foldl (fun n d => n * b + d) n := by
  induction ds generalizing n with
  | nil => exact le_rfl
  | cons d ds ih => exact ((Nat.le_mul_of_pos_right n hb).trans (Nat.le_add_right _ d)).trans (ih _)

theorem foldl_takeWhile_le (hbb : b < b') {m n : ℕ} (hmn : m ≤ n) (ds : List ℕ) :
    (ds.takeWhile (· < b)).foldl (fun n d => n * b + d) m ≤ ds.foldl (fun n d => n * b' + d) n := by
  induction ds generalizing m n with
  | nil => exact hmn
  | cons d ds ih =>
    by_cases hd : d < b
    · rw [List.takeWhile_cons_of_pos (by simpa using hd), List.foldl_cons, List.foldl_cons]
      exact ih (Nat.add_le_add_right (Nat.mul_le_mul hmn hbb.le) d)
    · rw [List.takeWhile_cons_of_neg (by simpa using hd), List.foldl_nil]
      exact hmn.trans (le_foldl (Nat.zero_lt_of_lt hbb) n (d :: ds))

/-- A value that is smaller stays smaller. -/
theorem foldl_takeWhile_lt (hbb : b < b') {m n : ℕ} (hmn : m < n) (ds : List ℕ) :
    (ds.takeWhile (· < b)).foldl (fun n d => n * b + d) m < ds.foldl (fun n d => n * b' + d) n := by
  induction ds generalizing m n with
  | nil => exact hmn
  | cons d ds ih =>
    by_cases hd : d < b
    · rw [List.takeWhile_cons_of_pos (by simpa using hd), List.foldl_cons, List.foldl_cons]
      refine ih (Nat.add_lt_add_right ?_ d)
      exact Nat.mul_lt_mul_of_lt_of_le hmn hbb.le (Nat.zero_lt_of_lt hbb)
    · rw [List.takeWhile_cons_of_neg (by simpa using hd), List.foldl_nil]
      exact hmn.trans_le (le_foldl (Nat.zero_lt_of_lt hbb) n (d :: ds))

/-- Behind a digit that counts, a further digit makes the value smaller. -/
theorem foldl_takeWhile_lt_of_pos (hb : 0 < b) (hbb : b < b') {n : ℕ} (hn : 0 < n) (d : ℕ)
    (ds : List ℕ) :
    ((d :: ds).takeWhile (· < b)).foldl (fun n d => n * b + d) n <
      (d :: ds).foldl (fun n d => n * b' + d) n := by
  have hstep : n * b < n * b' := Nat.mul_lt_mul_of_pos_left hbb hn
  by_cases hd : d < b
  · rw [List.takeWhile_cons_of_pos (by simpa using hd), List.foldl_cons, List.foldl_cons]
    exact foldl_takeWhile_lt hbb (Nat.add_lt_add_right hstep d) ds
  · rw [List.takeWhile_cons_of_neg (by simpa using hd), List.foldl_nil, List.foldl_cons]
    have hb' : 0 < b' := hb.trans hbb
    have hgrow : n < n * b' + d := by
      have hle : n ≤ n * b' := Nat.le_mul_of_pos_right n hb'
      omega
    exact hgrow.trans_le (le_foldl hb' _ ds)

/-- The smaller base finds the value of the larger one for a single digit behind zeros. -/
theorem value_takeWhile_eq_iff (hb : 0 < b) (hbb : b < b') (ds : List ℕ) :
    value b (ds.takeWhile (· < b)) = value b' ds ↔
      (∀ d ∈ ds.dropLast, d = 0) ∧ ∀ d ∈ ds.getLast?, d < b := by
  induction ds with
  | nil => simp [value]
  | cons d ds ih =>
    rcases Nat.eq_zero_or_pos d with rfl | hd
    · have hskip : value b ((0 :: ds).takeWhile (· < b)) = value b (ds.takeWhile (· < b)) := by
        simp [hb, value]
      have hskip' : value b' (0 :: ds) = value b' ds := by simp [value]
      rw [hskip, hskip', ih]
      cases ds with
      | nil => simpa using hb
      | cons e ds => simp
    · cases ds with
      | nil =>
        by_cases hdb : d < b <;> simp [hdb, value]
        omega
      | cons e ds =>
        have hlt : value b ((d :: e :: ds).takeWhile (· < b)) < value b' (d :: e :: ds) := by
          by_cases hdb : d < b
          · rw [List.takeWhile_cons_of_pos (by simpa using hdb)]
            simpa [value] using foldl_takeWhile_lt_of_pos hb hbb hd e ds
          · rw [List.takeWhile_cons_of_neg (by simpa using hdb)]
            have hle := le_foldl (hb.trans hbb) d (e :: ds)
            simpa [value] using hd.trans_le hle
        simp [hlt.ne, hd.ne']

end ServingObservatory.Numerals
