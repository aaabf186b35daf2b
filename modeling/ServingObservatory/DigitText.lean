import ServingObservatory.Identity
import ServingObservatory.Numerals

/-!
# Digits in texts

A digit has a value of its own and a decimal text the value of its digits. The text of a
number consists of digits and has the value of the number.
-/
namespace ServingObservatory

/-- A digit of a base up to 36, and 36 for what is none. -/
def digitOf (c : UInt8) : ℕ :=
  if 0x30 ≤ c && c ≤ 0x39 then (c - 0x30).toNat
  else if 0x61 ≤ c && c ≤ 0x7A then (c - 0x61).toNat + 10
  else if 0x41 ≤ c && c ≤ 0x5A then (c - 0x41).toNat + 10
  else 36

/-- What a decimal numeral denotes. -/
def decimalValue (v : Str) : ℕ := Numerals.value 10 (v.map digitOf)

section Digits
variable {c : UInt8}

def IsDigit (c : UInt8) : Prop := 0x30 ≤ c ∧ c ≤ 0x39

instance (c : UInt8) : Decidable (IsDigit c) := inferInstanceAs (Decidable (_ ∧ _))

theorem IsDigit.ne (hc : IsDigit c) {e : UInt8} (he : ¬ IsDigit e) : c ≠ e := fun h => he (h ▸ hc)

theorem isDigit_of_all {v : Str} (h : (v.all fun c => decide (IsDigit c)) = true) :
    ∀ c ∈ v, IsDigit c := fun c hc => by
  simpa using List.all_eq_true.mp h c hc

theorem mem_digits_iff : c ∈ lit "0123456789" ↔ IsDigit c := by
  have hall : ∀ c ∈ lit "0123456789", IsDigit c := isDigit_of_all (by decide)
  refine ⟨hall c, fun hc => ?_⟩
  have hlo : 48 ≤ c.toNat := UInt8.le_iff_toNat_le.mp hc.1
  have hhi : c.toNat ≤ 57 := UInt8.le_iff_toNat_le.mp hc.2
  have hc : UInt8.ofNat c.toNat = c := UInt8.ofNat_toNat
  rw [← hc]
  generalize c.toNat = n at hlo hhi
  interval_cases n <;> decide

theorem digitOf_eq (hc : IsDigit c) : digitOf c = c.toNat - 48 := by
  have hif : (decide (0x30 ≤ c) && decide (c ≤ 0x39)) = true := by simp [hc.1, hc.2]
  rw [digitOf, if_pos hif, UInt8.toNat_sub_of_le _ _ hc.1]
  rfl

theorem digitOf_eq_zero_iff (hc : IsDigit c) : digitOf c = 0 ↔ c = 0x30 := by
  have hlo : 48 ≤ c.toNat := UInt8.le_iff_toNat_le.mp hc.1
  rw [digitOf_eq hc, ← UInt8.toNat_inj]
  change _ ↔ c.toNat = 48
  omega

theorem digitOf_lt_iff (hc : IsDigit c) : digitOf c < 8 ↔ c ≤ 0x37 := by
  have hlo : 48 ≤ c.toNat := UInt8.le_iff_toNat_le.mp hc.1
  rw [digitOf_eq hc, UInt8.le_iff_toNat_le]
  change _ ↔ c.toNat ≤ 55
  omega

theorem digitOf_lt_ten (hc : IsDigit c) : digitOf c < 10 := by
  have hhi : c.toNat ≤ 57 := UInt8.le_iff_toNat_le.mp hc.2
  rw [digitOf_eq hc]
  omega

/-- The byte of a digit character. -/
theorem isDigit_ofNat {a : Char} (ha : a.isDigit = true) : IsDigit (UInt8.ofNat a.toNat) ∧
    digitOf (UInt8.ofNat a.toNat) = a.toNat - '0'.toNat := by
  have hrange : 48 ≤ a.toNat ∧ a.toNat ≤ 57 := Char.isDigit_iff_toNat.mp ha
  have hbyte : (UInt8.ofNat a.toNat).toNat = a.toNat := UInt8.toNat_ofNat_of_lt' (by
    change a.toNat < 256
    omega)
  have hdigit : IsDigit (UInt8.ofNat a.toNat) := by
    refine ⟨UInt8.le_iff_toNat_le.mpr ?_, UInt8.le_iff_toNat_le.mpr ?_⟩ <;> rw [hbyte]
    · exact hrange.1
    · exact hrange.2
  exact ⟨hdigit, by rw [digitOf_eq hdigit, hbyte]; rfl⟩

theorem decimal_eq (n : ℕ) :
    decimal n = (Nat.toDigits 10 n).map fun a => UInt8.ofNat a.toNat := by
  rw [decimal, lit, Nat.toString_eq_repr, Nat.toList_repr]

theorem isDigit_of_mem_toDigits {n : ℕ} {a : Char} (ha : a ∈ Nat.toDigits 10 n) :
    a.isDigit = true :=
  Nat.isDigit_of_mem_toDigits (by norm_num) le_rfl ha

theorem isDigit_of_mem_decimal {n : ℕ} (hc : c ∈ decimal n) : IsDigit c := by
  rw [decimal_eq] at hc
  obtain ⟨a, ha, rfl⟩ := List.mem_map.mp hc
  exact (isDigit_ofNat (isDigit_of_mem_toDigits ha)).1

/-- The decimal text of a number denotes it. -/
theorem decimalValue_decimal (n : ℕ) : decimalValue (decimal n) = n := by
  have hdigits : (decimal n).map digitOf =
      (Nat.toDigits 10 n).map fun a => a.toNat - '0'.toNat := by
    rw [decimal_eq, List.map_map]
    exact List.map_congr_left fun a ha => (isDigit_ofNat (isDigit_of_mem_toDigits ha)).2
  rw [decimalValue, hdigits, Numerals.value, List.foldl_map]
  refine Eq.trans ?_ (Nat.ofDigitChars_toDigits (b := 10) (n := n) (by norm_num) le_rfl)
  rw [Nat.ofDigitChars_eq_foldl]
  simp only [Nat.mul_comm]

theorem decimal_ne_nil (n : ℕ) : decimal n ≠ [] := by
  rw [decimal_eq, Ne, List.map_eq_nil_iff]
  exact Nat.toDigits_ne_nil

end Digits
end ServingObservatory
