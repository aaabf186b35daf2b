import Mathlib.Tactic

/-!
# Sorting that leaves ties open

A sort rearranges a list so that no element is below an earlier one, in an order of
its own among elements that compare as equal. Where the comparison tells all
elements apart, the result does not depend on the sort or on the given order.
-/
namespace ServingObservatory.Sorting
open Std
variable {α β : Type}

/-- What a sort demands of its comparison. -/
structure StrictWeak (lt : α → α → Bool) : Prop where
  asymm : ∀ {a b}, lt a b = true → lt b a = false
  negTrans : ∀ {a b c}, lt a b = false → lt b c = false → lt a c = false

theorem strictWeak_isLT (cmp : α → α → Ordering) [TransCmp cmp] :
    StrictWeak fun a b => (cmp a b).isLT where
  asymm {a b} h := by
    have hswap : cmp b a = (cmp a b).swap := OrientedCmp.eq_swap
    rw [hswap]
    cases hab : cmp a b <;> simp_all
  negTrans {a b c} hab hbc := by
    have hab' : (cmp a b).isGE := by cases h : cmp a b <;> simp_all
    have hbc' : (cmp b c).isGE := by cases h : cmp b c <;> simp_all
    have hac : (cmp a c).isGE := TransCmp.isGE_trans hab' hbc'
    cases h : cmp a c <;> simp_all

/-- No element is below an earlier one. -/
def Ascending (lt : α → α → Bool) (l : List α) : Prop := l.Pairwise fun a b => lt b a = false

/-- The comparison tells the elements of a list apart. -/
def Separates (lt : α → α → Bool) (l : List α) : Prop :=
  ∀ a ∈ l, ∀ b ∈ l, lt a b = false → lt b a = false → a = b

theorem Separates.perm {lt : α → α → Bool} {l l' : List α} (h : Separates lt l)
    (hl : l.Perm l') : Separates lt l' :=
  fun a ha b hb => h a (hl.mem_iff.mpr ha) b (hl.mem_iff.mpr hb)

/-- A comparison whose ties share a key separates a list of distinct keys. -/
theorem separates_of_key {lt : α → α → Bool} {l : List α} (key : α → β) (hl : (l.map key).Nodup)
    (hkey : ∀ a b, lt a b = false → lt b a = false → key a = key b) : Separates lt l :=
  fun a ha b hb hab hba => List.inj_on_of_nodup_map hl ha hb (hkey a b hab hba)

/-- Two sorted arrangements of separated elements are the same list. -/
theorem eq_of_ascending {lt : α → α → Bool} {l l' : List α} (hl : l.Perm l')
    (hsep : Separates lt l) (h : Ascending lt l) (h' : Ascending lt l') : l = l' :=
  hl.eq_of_pairwise (fun a b ha hb hba hab => hsep a ha b (hl.mem_iff.mpr hb) hab hba) h h'

/-- A sorting algorithm. -/
structure Sorter where
  sort : {α : Type} → (α → α → Bool) → List α → List α
  perm : ∀ {α : Type} (lt : α → α → Bool) (l : List α), (sort lt l).Perm l
  ascending : ∀ {α : Type} {lt : α → α → Bool} (l : List α), StrictWeak lt →
    Ascending lt (sort lt l)

namespace Sorter
variable (S : Sorter) {lt : α → α → Bool}

theorem sort_congr (hlt : StrictWeak lt) {l l' : List α} (hl : l.Perm l')
    (hsep : Separates lt l) : S.sort lt l = S.sort lt l' :=
  eq_of_ascending ((S.perm lt l).trans (hl.trans (S.perm lt l').symm))
    (hsep.perm (S.perm lt l).symm) (S.ascending l hlt) (S.ascending l' hlt)

/-- A map that keeps the comparison is taken after sorting as well as before. -/
theorem sort_map (f : α → β) {lt' : β → β → Bool} (hlt : StrictWeak lt) (hlt' : StrictWeak lt')
    (hf : ∀ a b, lt' (f a) (f b) = lt a b) {l : List α} (hsep : Separates lt' (l.map f)) :
    S.sort lt' (l.map f) = (S.sort lt l).map f := by
  have hperm : (S.sort lt' (l.map f)).Perm ((S.sort lt l).map f) :=
    (S.perm lt' _).trans ((S.perm lt l).symm.map f)
  refine eq_of_ascending hperm (hsep.perm (S.perm lt' _).symm) (S.ascending _ hlt') ?_
  refine List.pairwise_map.mpr ((S.ascending l hlt).imp fun {a b} h => ?_)
  rw [hf]
  exact h

theorem mem_sort {l : List α} {a : α} : a ∈ S.sort lt l ↔ a ∈ l := (S.perm lt l).mem_iff

theorem length_sort (l : List α) : (S.sort lt l).length = l.length := (S.perm lt l).length_eq

/-- The merge sort of the standard library, which keeps the given order of ties. -/
def mergeSorter : Sorter where
  sort lt l := l.mergeSort fun a b => !lt b a
  perm lt l := List.mergeSort_perm l _
  ascending {α lt} l hlt := by
    have htrans : ∀ a b c : α, (!lt b a) = true → (!lt c b) = true → (!lt c a) = true := by
      intro a b c hab hbc
      simp only [Bool.not_eq_true'] at hab hbc ⊢
      exact hlt.negTrans hbc hab
    have htotal : ∀ a b : α, ((!lt b a) || !lt a b) = true := by
      intro a b
      cases h : lt b a with
      | false => rfl
      | true => simp [hlt.asymm h]
    refine (List.pairwise_mergeSort htrans htotal l).imp fun {a b} h => ?_
    simpa using h

end Sorter
end ServingObservatory.Sorting
