import Mathlib.Tactic

/-!
# Nearest-rank percentiles

The element at a rank of a sorted list has that many elements at or below it and fewer
strictly below it. Ranks are counted from one, and the rank of a share is rounded up, so
the element at that rank is the least one that covers the share.
-/
namespace ServingObservatory.NearestRank
variable {α : Type*} [LE α]

/-- The rank of a percentage among `n` elements. -/
def rank (p : ℚ) (n : ℕ) : ℕ := ⌈p / 100 * n⌉₊

/-- The element covers a percentage of the list, and the elements below it do not. -/
structure Covers [LT α] [DecidableLE α] [DecidableLT α] (l : List α) (p : ℚ) (v : α) : Prop where
  mem : v ∈ l
  at_least : p * l.length / 100 ≤ l.countP fun a => a ≤ v
  fewer : (l.countP fun a => a < v : ℕ) < p * l.length / 100

section Rank
variable {p q : ℚ} {n : ℕ}

theorem rank_pos (hp : 0 < p) (hn : 0 < n) : 1 ≤ rank p n := by
  have hn' : (0 : ℚ) < n := by exact_mod_cast hn
  exact Nat.ceil_pos.mpr (by positivity)

theorem rank_le (hp : p ≤ 100) (n : ℕ) : rank p n ≤ n := by
  refine Nat.ceil_le.mpr (mul_le_of_le_one_left (Nat.cast_nonneg n) ?_)
  linarith

theorem rank_mono (hpq : p ≤ q) (n : ℕ) : rank p n ≤ rank q n := by
  apply Nat.ceil_mono
  gcongr

theorem le_rank (p : ℚ) (n : ℕ) : p * n / 100 ≤ rank p n := by
  have hceil := Nat.le_ceil (p / 100 * n)
  unfold rank
  linarith

theorem lt_of_lt_rank {k : ℕ} (h : k < rank p n) : (k : ℚ) < p * n / 100 := by
  have hceil := Nat.lt_ceil.mp h
  linarith

end Rank

section Sorted
variable [Std.IsLinearOrder α] {s : List α} (hs : s.Pairwise (· ≤ ·)) {i j : ℕ}
include hs

theorem getElem_le_getElem (hij : i ≤ j) (hj : j < s.length) : s[i] ≤ s[j] := by
  rcases Nat.lt_or_eq_of_le hij with hlt | rfl
  · exact List.pairwise_iff_getElem.mp hs i j (by omega) hj hlt
  · exact Std.le_refl _

/-- At least the elements up to an index are at or below the one at the index. -/
theorem lt_countP_le [DecidableLE α] (hi : i < s.length) : i < s.countP fun a => a ≤ s[i] := by
  have htake : (s.take (i + 1)).countP (fun a => decide (a ≤ s[i])) = i + 1 := by
    have hall : ∀ a ∈ s.take (i + 1), decide (a ≤ s[i]) = true := by
      intro a ha
      obtain ⟨j, hj, rfl⟩ := List.getElem_of_mem ha
      rw [List.length_take] at hj
      rw [List.getElem_take]
      exact decide_eq_true (getElem_le_getElem hs (by omega) hi)
    rw [List.countP_eq_length.mpr hall, List.length_take]
    omega
  have hsub := (List.take_sublist (i + 1) s).countP_le (p := fun a => decide (a ≤ s[i]))
  omega

variable [LT α] [DecidableLT α] [Std.LawfulOrderLT α]

/-- At most the elements before an index are below the one at the index. -/
theorem countP_lt_le (hi : i < s.length) : (s.countP fun a => a < s[i]) ≤ i := by
  have hdrop : (s.drop i).countP (fun a => decide (a < s[i])) = 0 := by
    rw [List.countP_eq_zero]
    intro a ha
    obtain ⟨j, hj, rfl⟩ := List.getElem_of_mem ha
    rw [List.length_drop] at hj
    rw [List.getElem_drop, decide_eq_true_eq, Std.not_lt]
    exact getElem_le_getElem hs (by omega) (by omega)
  have hsplit : s.countP (fun a => decide (a < s[i])) =
      (s.take i).countP (fun a => decide (a < s[i])) +
        (s.drop i).countP (fun a => decide (a < s[i])) := by
    rw [← List.countP_append, List.take_append_drop]
  have htake := List.countP_le_length (p := fun a => decide (a < s[i])) (l := s.take i)
  rw [List.length_take] at htake
  omega

/-- The element at the rank of a percentage covers it. -/
theorem covers_getElem [DecidableLE α] {p : ℚ} {l : List α} (hl : s.Perm l)
    (hi : rank p s.length = i + 1) (hlt : i < s.length) : Covers l p s[i] where
  mem := hl.mem_iff.mp (List.getElem_mem hlt)
  at_least := by
    have hle : rank p s.length ≤ s.countP fun a => a ≤ s[i] := by
      rw [hi]
      exact lt_countP_le hs hlt
    rw [← hl.length_eq, ← hl.countP_eq]
    exact (le_rank p s.length).trans (by exact_mod_cast hle)
  fewer := by
    have hcount : (s.countP fun a => a < s[i]) < rank p s.length := by
      rw [hi]
      exact Nat.lt_succ_of_le (countP_lt_le hs hlt)
    rw [← hl.length_eq, ← hl.countP_eq]
    exact lt_of_lt_rank hcount

end Sorted
end ServingObservatory.NearestRank
