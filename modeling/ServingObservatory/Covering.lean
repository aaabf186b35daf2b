import Mathlib.Tactic

/-!
# Overlapping sets by priority

Sets that overlap are told apart by a priority: an element belongs to the set of the
highest priority that holds it. The shares so defined are disjoint and have the same
union. Elements of a half-open range are counted segment by segment, at one point of
each segment on which nothing changes.
-/
namespace ServingObservatory.Covering
open Finset

section Shares
variable {ι α κ : Type*} [DecidableEq α] [LinearOrder κ]
variable (S : Finset ι) (A : ι → Finset α) (pri : ι → κ)

/-- The elements of a set that no set of a higher priority holds. -/
def share (i : ι) : Finset α := {x ∈ A i | ∀ j ∈ S, pri i < pri j → x ∉ A j}

theorem mem_share {i : ι} {x : α} :
    x ∈ share S A pri i ↔ x ∈ A i ∧ ∀ j ∈ S, pri i < pri j → x ∉ A j := by
  simp [share]

variable {S A pri} in
theorem share_congr {B : ι → Finset α} (h : ∀ j ∈ S, A j = B j) {i : ι} (hi : i ∈ S) :
    share S A pri i = share S B pri i := by
  rw [share, share, h i hi]
  exact Finset.filter_congr fun x _ => forall₂_congr fun j hj => by rw [h j hj]

/-- Renamed elements have the renamed shares. -/
theorem share_map {β : Type*} [DecidableEq β] (e : α ↪ β) (i : ι) :
    share S (fun j => (A j).map e) pri i = (share S A pri i).map e := by
  rw [share, share, Finset.filter_map]
  refine congrArg (Finset.map e) (Finset.filter_congr fun x _ => ?_)
  simp only [Function.comp_apply, Finset.mem_map']

theorem share_subset (i : ι) : share S A pri i ⊆ A i := Finset.filter_subset _ _

/-- Every element of the union has a set of the highest priority. -/
theorem biUnion_share : S.biUnion (share S A pri) = S.biUnion A := by
  ext x
  simp only [mem_biUnion, mem_share]
  constructor
  · rintro ⟨i, hi, hx, -⟩
    exact ⟨i, hi, hx⟩
  · rintro ⟨i, hi, hx⟩
    have hne : ({j ∈ S | x ∈ A j} : Finset ι).Nonempty := ⟨i, by simp [hi, hx]⟩
    obtain ⟨j, hj, hmax⟩ := exists_max_image _ pri hne
    rw [mem_filter] at hj
    refine ⟨j, hj.1, hj.2, fun k hk hlt hxk => ?_⟩
    exact absurd hlt (not_lt.mpr (hmax k (by simp [hk, hxk])))

variable {S pri}

/-- Distinct priorities leave no element to two shares. -/
theorem pairwiseDisjoint_share (hpri : Set.InjOn pri S) :
    (S : Set ι).PairwiseDisjoint (share S A pri) := by
  intro i hi j hj hij
  refine Finset.disjoint_left.mpr fun x hx hx' => ?_
  rw [mem_share] at hx hx'
  rcases lt_trichotomy (pri i) (pri j) with hlt | heq | hgt
  · exact hx.2 j hj hlt hx'.1
  · exact hij (hpri hi hj heq)
  · exact hx'.2 i hi hgt hx.1

/-- The shares add up to the union. -/
theorem sum_card_share (hpri : Set.InjOn pri S) :
    ∑ i ∈ S, (share S A pri i).card = (S.biUnion A).card := by
  rw [← biUnion_share S A pri, card_biUnion]
  exact fun i hi j hj hij => pairwiseDisjoint_share A hpri hi hj hij

end Shares

section Counting
variable (P : ℕ → Prop) [DecidablePred P]

/-- How many numbers of a half-open range have a property. -/
def count (a b : ℕ) : ℕ := #{x ∈ Ico a b | P x}

theorem count_self (a : ℕ) : count P a a = 0 := by simp [count]

theorem count_add {a b c : ℕ} (hab : a ≤ b) (hbc : b ≤ c) :
    count P a b + count P b c = count P a c := by
  have hdisj : Disjoint ({x ∈ Ico a b | P x} : Finset ℕ) {x ∈ Ico b c | P x} :=
    (Ico_disjoint_Ico_consecutive a b c).mono (filter_subset _ _) (filter_subset _ _)
  rw [count, count, ← card_union_of_disjoint hdisj, ← filter_union,
    Ico_union_Ico_eq_Ico hab hbc, count]

/-- A property that is constant on a range is counted at any point of it. -/
theorem count_of_constant {a b m : ℕ} (h : ∀ x, a ≤ x → x < b → (P x ↔ P m)) :
    count P a b = if P m then b - a else 0 := by
  split_ifs with hm
  · have hall : ({x ∈ Ico a b | P x} : Finset ℕ) = Ico a b := by
      ext x
      simp only [mem_filter, mem_Ico, and_iff_left_iff_imp]
      exact fun hx => (h x hx.1 hx.2).mpr hm
    rw [count, hall, Nat.card_Ico]
  · rw [count, card_eq_zero, filter_eq_empty_iff]
    intro x hx hP
    rw [mem_Ico] at hx
    exact hm ((h x hx.1 hx.2).mp hP)

/-- A half-open interval without an end inside a segment covers all of it or nothing. -/
theorem covers_iff_of_no_end {s e a b x y : ℕ} (hs : ¬ (a < s ∧ s < b)) (he : ¬ (a < e ∧ e < b))
    (hx : a ≤ x ∧ x < b) (hy : a ≤ y ∧ y < b) : (s ≤ x ∧ x < e) ↔ (s ≤ y ∧ y < e) := by
  omega

end Counting
end ServingObservatory.Covering
