import ServingObservatory.Sorting

/-!
# Every order of ties

A sort may leave tied elements in any order. So whatever holds for all sorts holds for
every arrangement that ascends, and an element can be found first in some sorted list
exactly when none of the candidates is below it.
-/
namespace ServingObservatory.Sorting
variable {α : Type} {lt : α → α → Bool}

/-- An arrangement that ascends is the result of some sort. -/
theorem exists_sorter {l l' : List α} (hl : l'.Perm l) (h : Ascending lt l') :
    ∃ S : Sorter, S.sort lt l = l' := by
  classical
  let S : Sorter :=
    { sort := fun {β} lt' k =>
        if he : ∃ e : α = β, e ▸ lt = lt' ∧ e ▸ l = k then he.choose ▸ l'
        else Sorter.mergeSorter.sort lt' k
      perm := fun {β} lt' k => by
        by_cases he : ∃ e : α = β, e ▸ lt = lt' ∧ e ▸ l = k
        · obtain ⟨rfl, rfl, rfl⟩ := he
          simpa using hl
        · simpa only [dif_neg he] using Sorter.mergeSorter.perm lt' k
      ascending := fun {β lt'} k hlt => by
        by_cases he : ∃ e : α = β, e ▸ lt = lt' ∧ e ▸ l = k
        · obtain ⟨rfl, rfl, rfl⟩ := he
          simpa using h
        · simpa only [dif_neg he] using Sorter.mergeSorter.ascending k hlt }
  exact ⟨S, dif_pos ⟨rfl, rfl, rfl⟩⟩

/-- The comparison that puts marked elements before those they tie with. -/
def markedFirst (lt : α → α → Bool) (mark : α → Bool) (a b : α) : Bool :=
  lt a b || (!lt b a && (mark a && !mark b))

theorem strictWeak_markedFirst (hlt : StrictWeak lt) (mark : α → Bool) :
    StrictWeak (markedFirst lt mark) where
  asymm {a b} := by
    have hab := @hlt.asymm a b
    unfold markedFirst
    generalize lt a b = x, lt b a = y, mark a = m, mark b = n at hab ⊢
    revert x y m n
    decide
  negTrans {a b c} := by
    have habc := @hlt.negTrans a b c
    have hbca := @hlt.negTrans b c a
    have hcab := @hlt.negTrans c a b
    have hcba := @hlt.negTrans c b a
    have hacb := @hlt.negTrans a c b
    have hbac := @hlt.negTrans b a c
    unfold markedFirst
    generalize lt a b = ab, lt b a = ba, lt b c = bc, lt c b = cb, lt a c = ac, lt c a = ca,
      mark a = m, mark b = n, mark c = k at *
    revert ab ba bc cb ac ca m n k
    decide

theorem ascending_of_markedFirst {mark : α → Bool} {l : List α}
    (h : Ascending (markedFirst lt mark) l) : Ascending lt l :=
  h.imp fun {a b} hba => by
    unfold markedFirst at hba
    cases hlt : lt b a <;> simp_all

/-- A sorted list in which an element comes before those that it ties with. -/
theorem exists_ascending_markedFirst (hlt : StrictWeak lt) (l : List α) (mark : α → Bool) :
    ∃ l' : List α, l'.Perm l ∧ Ascending lt l' ∧ Ascending (markedFirst lt mark) l' := by
  have h := Sorter.mergeSorter.ascending l (strictWeak_markedFirst hlt mark)
  exact ⟨_, Sorter.mergeSorter.perm _ l, ascending_of_markedFirst h, h⟩

/-- A candidate of the list that no candidate is below. -/
structure Minimal (lt : α → α → Bool) (p : α → Bool) (l : List α) (a : α) : Prop where
  mem : a ∈ l
  candidate : p a = true
  least : ∀ b ∈ l, p b = true → lt b a = false

/-- A candidate of the list that is below no candidate. -/
abbrev Maximal (lt : α → α → Bool) : (α → Bool) → List α → α → Prop := Minimal fun a b => lt b a

theorem Minimal.perm {p : α → Bool} {l l' : List α} {a : α} (h : Minimal lt p l a)
    (hl : l.Perm l') : Minimal lt p l' a :=
  ⟨hl.mem_iff.mp h.mem, h.candidate, fun b hb => h.least b (hl.mem_iff.mpr hb)⟩

theorem strictWeak_flip (hlt : StrictWeak lt) : StrictWeak fun a b => lt b a where
  asymm h := hlt.asymm h
  negTrans hab hbc := hlt.negTrans hbc hab

theorem ascending_reverse {l : List α} :
    Ascending (fun a b => lt b a) l.reverse ↔ Ascending lt l := List.pairwise_reverse

/-- The first candidate of an ascending list has none below it. -/
theorem minimal_of_find? (hlt : StrictWeak lt) {p : α → Bool} {l : List α} (hl : Ascending lt l)
    {a : α} (h : l.find? p = some a) : Minimal lt p l a := by
  obtain ⟨hp, before, after, rfl, hbefore⟩ := List.find?_eq_some_iff_append.mp h
  refine ⟨by simp, hp, fun b hb hpb => ?_⟩
  rcases List.mem_append.mp hb with hin | hin
  · exact absurd hpb (by simpa using hbefore b hin)
  · rcases List.mem_cons.mp hin with rfl | hlater
    · exact Bool.eq_false_iff.mpr fun hirr => absurd hirr (by simp [hlt.asymm hirr])
    · exact (List.pairwise_cons.mp (List.pairwise_append.mp hl).2.1).1 b hlater

/-- A candidate with none below it comes first in some ascending arrangement. -/
theorem exists_find?_of_minimal (hlt : StrictWeak lt) {p : α → Bool} {l : List α} {a : α}
    (h : Minimal lt p l a) : ∃ l' : List α, l'.Perm l ∧ Ascending lt l' ∧ l'.find? p = some a := by
  classical
  obtain ⟨l', hperm, hasc, hmarked⟩ := exists_ascending_markedFirst hlt l fun b => decide (b = a)
  refine ⟨l', hperm, hasc, ?_⟩
  have hin : a ∈ l' := hperm.mem_iff.mpr h.mem
  obtain ⟨b, hb⟩ := Option.isSome_iff_exists.mp (List.find?_isSome.mpr ⟨a, hin, h.candidate⟩)
  rw [hb]
  by_contra hne
  have hba : b ≠ a := fun heq => hne (congrArg some heq)
  obtain ⟨hpb, before, after, rfl, hbefore⟩ := List.find?_eq_some_iff_append.mp hb
  have hafter : a ∈ after := by
    rcases List.mem_append.mp hin with hbef | hcons
    · exact absurd h.candidate (by simpa using hbefore a hbef)
    · exact (List.mem_cons.mp hcons).resolve_left hba.symm
  have htie := (List.pairwise_cons.mp (List.pairwise_append.mp hmarked).2.1).1 a hafter
  have hlow := h.least b (hperm.mem_iff.mp (by simp)) hpb
  simp [markedFirst, hlow, hba] at htie

section Sorters
variable (hlt : StrictWeak lt) (p : α → Bool) (l : List α) (P : α → Prop)
include hlt

/-- What holds of the last candidate under every sort. -/
theorem forall_sort_findLast?_iff :
    (∀ (S : Sorter) (a : α), (S.sort lt l).reverse.find? p = some a → P a) ↔
      ∀ a, Maximal lt p l a → P a := by
  constructor
  · intro h a hmax
    obtain ⟨l', hperm, hasc, hfind⟩ := exists_find?_of_minimal (strictWeak_flip hlt) hmax
    obtain ⟨S, hS⟩ := exists_sorter ((List.reverse_perm l').trans hperm)
      (ascending_reverse.mp (by rwa [List.reverse_reverse]))
    exact h S a (by rwa [hS, List.reverse_reverse])
  · intro h S a hfind
    have hmin := minimal_of_find? (strictWeak_flip hlt)
      (ascending_reverse.mpr (S.ascending l hlt)) hfind
    exact h a (hmin.perm ((List.reverse_perm _).trans (S.perm lt l)))

end Sorters
end ServingObservatory.Sorting
