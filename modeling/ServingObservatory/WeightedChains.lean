import Mathlib.Tactic

/-!
# Heaviest chains

The elements of a list are handled in order. Each is appended to the heaviest chain that
ends in an earlier element which may come before it, and remembers that element. Where the
elements that may come before one may also come before all later ones, the heaviest chain
found is the heaviest of all, and the walk back from its end meets positive weights only.
-/
namespace ServingObservatory.WeightedChains
variable {ι : Type*}

/-- The weight of the heaviest chain found that ends in each element, the element before it,
and the end of the heaviest of all. -/
structure Table (ι : Type*) where
  chain : ι → ℕ := fun _ => 0
  pred : ι → Option ι := fun _ => none
  best : ℕ := 0
  last : Option ι := none

def weight (w : ι → ℕ) (l : List ι) : ℕ := (l.map w).sum

/-- The way back from an element along the elements before it. -/
inductive Walk (pred : ι → Option ι) : Option ι → List ι → Prop
  | done : Walk pred none []
  | step {i : ι} {p : List ι} : Walk pred (pred i) p → Walk pred (some i) (i :: p)

/-- A later candidate replaces the best so far only if it is heavier. -/
def better (chain : ι → ℕ) (P : ι → Prop) [DecidablePred P] (acc : ℕ × Option ι) (j : ι) :
    ℕ × Option ι :=
  if P j ∧ acc.1 < chain j then (chain j, some j) else acc

/-- The first of the heaviest candidates. -/
def pick (chain : ι → ℕ) (P : ι → Prop) [DecidablePred P] (l : List ι) : ℕ × Option ι :=
  l.foldl (better chain P) (0, none)

/-- What is picked: nothing, or the first of the heaviest. -/
def Picked (chain : ι → ℕ) (P : ι → Prop) (l : List ι) (r : ℕ × Option ι) : Prop :=
  (r = (0, none) ∧ ∀ j ∈ l, P j → chain j = 0) ∨
    ∃ first j rest, l = first ++ j :: rest ∧ r = (chain j, some j) ∧ P j ∧ 0 < chain j ∧
      (∀ k ∈ first, P k → chain k < chain j) ∧ ∀ k ∈ rest, P k → chain k ≤ chain j

section Picking
variable {chain chain' : ι → ℕ} {P : ι → Prop} {l : List ι} {r : ℕ × Option ι}

theorem Picked.le (h : Picked chain P l r) {j : ι} (hj : j ∈ l) (hP : P j) : chain j ≤ r.1 := by
  rcases h with ⟨rfl, hzero⟩ | ⟨first, i, rest, rfl, rfl, -, -, hfirst, hrest⟩
  · exact (hzero j hj hP).le
  · rcases List.mem_append.mp hj with hin | hin
    · exact (hfirst j hin hP).le
    · rcases List.mem_cons.mp hin with rfl | hin
      · exact le_rfl
      · exact hrest j hin hP

theorem Picked.concat [DecidablePred P] (h : Picked chain P l r) (k : ι) :
    Picked chain P (l ++ [k]) (better chain P r k) := by
  unfold better
  by_cases hk : P k ∧ r.1 < chain k
  · rw [if_pos hk]
    refine .inr ⟨l, k, [], rfl, rfl, hk.1, (Nat.zero_le _).trans_lt hk.2, fun a ha hP => ?_,
      by simp⟩
    exact (h.le ha hP).trans_lt hk.2
  · rw [if_neg hk]
    have hle : P k → chain k ≤ r.1 := fun hP => not_lt.mp fun hlt => hk ⟨hP, hlt⟩
    rcases h with ⟨rfl, hzero⟩ | ⟨first, j, rest, rfl, rfl, hP, hpos, hfirst, hrest⟩
    · refine .inl ⟨rfl, fun a ha hP => ?_⟩
      rcases List.mem_append.mp ha with hin | hin
      · exact hzero a hin hP
      · obtain rfl := List.mem_singleton.mp hin
        exact Nat.le_zero.mp (hle hP)
    · refine .inr ⟨first, j, rest ++ [k], by simp, rfl, hP, hpos, hfirst, fun a ha hPa => ?_⟩
      rcases List.mem_append.mp ha with hin | hin
      · exact hrest a hin hPa
      · obtain rfl := List.mem_singleton.mp hin
        exact hle hPa

theorem picked_pick (chain : ι → ℕ) (P : ι → Prop) [DecidablePred P] (l : List ι) :
    Picked chain P l (pick chain P l) := by
  induction l using List.reverseRecOn with
  | nil => exact .inl ⟨rfl, by simp⟩
  | append_singleton l k ih =>
    rw [pick, List.foldl_append]
    exact ih.concat k

theorem Picked.congr (h : Picked chain P l r) (heq : ∀ j ∈ l, chain' j = chain j) :
    Picked chain' P l r := by
  rcases h with ⟨rfl, hzero⟩ | ⟨first, i, rest, rfl, rfl, hP, hpos, hfirst, hrest⟩
  · refine .inl ⟨rfl, fun j hj hP => ?_⟩
    rw [heq j hj]
    exact hzero j hj hP
  · have hi := heq i (by simp)
    refine .inr ⟨first, i, rest, rfl, by rw [hi], hP, by rwa [hi], fun k hk hPk => ?_,
      fun k hk hPk => ?_⟩
    · rw [hi, heq k (by simp [hk])]
      exact hfirst k hk hPk
    · rw [hi, heq k (by simp [hk])]
      exact hrest k hk hPk

end Picking

section Building
variable [DecidableEq ι] (w : ι → ℕ) (R : ι → ι → Prop) [DecidableRel R]

/-- Handles an element after some others. -/
def Table.add (t : Table ι) (before : List ι) (i : ι) : Table ι :=
  let p := pick t.chain (R · i) before
  let len := p.1 + w i
  { chain := Function.update t.chain i len
    pred := Function.update t.pred i p.2
    best := if t.best < len then len else t.best
    last := if t.best < len then some i else t.last }

section Fields
variable (t : Table ι) (before : List ι) (i : ι)

theorem Table.chain_add (j : ι) : (t.add w R before i).chain j =
    if j = i then (pick t.chain (R · i) before).1 + w i else t.chain j := by
  simp [add, Function.update_apply]

theorem Table.pred_add (j : ι) : (t.add w R before i).pred j =
    if j = i then (pick t.chain (R · i) before).2 else t.pred j := by
  simp [add, Function.update_apply]

end Fields

/-- Handles the elements of a list in order. -/
def build (l : List ι) : Table ι :=
  (l.foldl (fun s i => (s.1 ++ [i], s.2.add w R s.1 i)) (([] : List ι), ({} : Table ι))).2

theorem build_concat (l : List ι) (i : ι) : build w R (l ++ [i]) = (build w R l).add w R l i := by
  have hfst : ∀ l : List ι, (l.foldl (fun s i => (s.1 ++ [i], s.2.add w R s.1 i))
      (([] : List ι), ({} : Table ι))).1 = l := by
    intro l
    induction l using List.reverseRecOn with
    | nil => rfl
    | append_singleton l i ih => rw [List.foldl_append, List.foldl_cons, List.foldl_nil, ih]
  rw [build, List.foldl_append, List.foldl_cons, List.foldl_nil, hfst, build]

end Building

section Settled
variable (w : ι → ℕ) (R : ι → ι → Prop)

/-- Every entry of the table is picked among the final entries of the earlier elements. -/
structure Settled (l : List ι) (t : Table ι) : Prop where
  entry : ∀ before i after, l = before ++ i :: after → ∃ r, Picked t.chain (R · i) before r ∧
    t.chain i = r.1 + w i ∧ t.pred i = r.2
  last : Picked t.chain (fun _ => True) l (t.best, t.last)

variable {w R}

/-- An element of a list with one more at the end is the last one or an earlier one. -/
theorem append_cons_eq_concat {l before after : List ι} {i k : ι}
    (h : l ++ [i] = before ++ k :: after) :
    (l = before ∧ i = k) ∨ ∃ rest, l = before ++ k :: rest := by
  rcases List.eq_nil_or_concat after with rfl | ⟨rest, m, rfl⟩
  · obtain ⟨hl, hlast⟩ := List.append_inj' h rfl
    exact .inl ⟨hl, by simpa using hlast⟩
  · have hsplit : l ++ [i] = (before ++ k :: rest) ++ [m] := by rw [h]; simp
    exact .inr ⟨rest, (List.append_inj' hsplit rfl).1⟩

/-- Handling one more element leaves the entries of the others as they are. -/
theorem Settled.add [DecidableEq ι] [DecidableRel R] {l : List ι} {t : Table ι}
    (h : Settled w R l t) {i : ι} (hnew : i ∉ l) : Settled w R (l ++ [i]) (t.add w R l i) := by
  have hne : ∀ j ∈ l, j ≠ i := by
    rintro j hj rfl
    exact hnew hj
  have hkeep : ∀ j ∈ l, (t.add w R l i).chain j = t.chain j := fun j hj => by
    rw [Table.chain_add, if_neg (hne j hj)]
  refine ⟨fun before k after heq => ?_, ?_⟩
  · rcases append_cons_eq_concat heq with ⟨rfl, rfl⟩ | ⟨rest, hl⟩
    · refine ⟨_, (picked_pick t.chain (R · i) l).congr hkeep, ?_, ?_⟩
      · rw [Table.chain_add, if_pos rfl]
      · rw [Table.pred_add, if_pos rfl]
    · have hk : k ∈ l := by simp [hl]
      obtain ⟨r, hpicked, hchain, hpred⟩ := h.entry before k rest hl
      refine ⟨r, hpicked.congr fun j hj => hkeep j (by simp [hl, hj]), ?_, ?_⟩
      · rw [hkeep k hk, hchain]
      · rw [Table.pred_add, if_neg (hne k hk), hpred]
  · have hstep := (h.last.congr hkeep).concat i
    unfold better at hstep
    rw [Table.chain_add, if_pos rfl] at hstep
    simp only [true_and] at hstep
    by_cases hlt : t.best < (pick t.chain (R · i) l).1 + w i
    · simpa [Table.add, hlt] using hstep
    · simpa [Table.add, hlt] using hstep

variable (w R)

theorem settled_build [DecidableEq ι] [DecidableRel R] {l : List ι} (hl : l.Nodup) :
    Settled w R l (build w R l) := by
  induction l using List.reverseRecOn with
  | nil => exact ⟨by simp, .inl ⟨rfl, by simp⟩⟩
  | append_singleton l i ih =>
    obtain ⟨hnew, hnodup⟩ : i ∉ l ∧ l.Nodup := by
      rwa [← List.concat_eq_append, List.nodup_concat] at hl
    rw [build_concat]
    exact (ih hnodup).add hnew

end Settled

theorem sublist_of_concat_sublist {A before after : List ι} {i : ι}
    (hl : (before ++ i :: after).Nodup) (h : (A ++ [i]).Sublist (before ++ i :: after)) :
    A.Sublist before := by
  rw [List.nodup_append, List.nodup_cons] at hl
  obtain ⟨-, ⟨hafter, -⟩, hbefore⟩ := hl
  obtain ⟨l₁, l₂, heq, h₁, h₂⟩ := List.sublist_append_iff.mp h
  rcases List.eq_nil_or_concat l₂ with rfl | ⟨m, k, rfl⟩
  · have hi : i ∈ before := h₁.subset (by rw [List.append_nil] at heq; simp [← heq])
    exact absurd rfl (hbefore i hi i (by simp))
  · have hsplit : A ++ [i] = (l₁ ++ m) ++ [k] := by rw [heq]; simp
    obtain ⟨rfl, hk⟩ := List.append_inj' hsplit rfl
    obtain rfl : i = k := by simpa using hk
    cases m with
    | nil => simpa using h₁
    | cons a m =>
      have hrest : (m ++ [i]).Sublist after := by simpa using h₂.tail
      exact absurd (hrest.subset (by simp)) hafter

section Heaviest
variable {w : ι → ℕ} {R : ι → ι → Prop} {l : List ι} {t : Table ι}

/-- What may come before an element may come before all later ones. -/
def Hereditary (R : ι → ι → Prop) (l : List ι) : Prop := l.Pairwise fun i k => ∀ j, R j i → R j k

/-- No chain is heavier than the entry of its end. -/
theorem Settled.weight_le_chain (h : Settled w R l t) (hl : l.Nodup) {T : List ι} {i : ι}
    (hT : (T ++ [i]).Sublist l) (hR : (T ++ [i]).Pairwise R) : weight w (T ++ [i]) ≤ t.chain i := by
  induction T using List.reverseRecOn generalizing i with
  | nil =>
    obtain ⟨before, after, heq⟩ := List.append_of_mem (hT.subset (by simp : i ∈ [] ++ [i]))
    obtain ⟨r, -, hchain, -⟩ := h.entry before i after heq
    simp [weight, hchain]
  | append_singleton T j ih =>
    obtain ⟨before, after, rfl⟩ := List.append_of_mem (hT.subset (by simp : i ∈ T ++ [j] ++ [i]))
    obtain ⟨r, hpicked, hchain, -⟩ := h.entry before i after rfl
    have hbefore := sublist_of_concat_sublist hl hT
    have hji : R j i := (List.pairwise_append.mp hR).2.2 j (by simp) i (by simp)
    have hprev := ih (hbefore.trans (List.sublist_append_left _ _)) (List.pairwise_append.mp hR).1
    have hle := hpicked.le (hbefore.subset (by simp : j ∈ T ++ [j])) hji
    calc weight w (T ++ [j] ++ [i]) = weight w (T ++ [j]) + w i := by simp [weight, add_assoc]
      _ ≤ r.1 + w i := by omega
      _ = t.chain i := hchain.symm

theorem Settled.weight_le (h : Settled w R l t) (hl : l.Nodup) {T : List ι} (hT : T.Sublist l)
    (hR : T.Pairwise R) : weight w T ≤ t.best := by
  rcases List.eq_nil_or_concat T with rfl | ⟨T, i, rfl⟩
  · simp [weight]
  · rw [List.concat_eq_append] at hT hR ⊢
    exact (h.weight_le_chain hl hT hR).trans (h.last.le (hT.subset (by simp)) trivial)

/-- The first of the heaviest candidates has a weight of its own: without one, the element
before it would have been as heavy, and earlier. -/
theorem Settled.pos_of_picked (h : Settled w R l t) {P : ι → Prop} {before : List ι}
    (hbefore : before <+: l) {j : ι} {c : ℕ} (hpicked : Picked t.chain P before (c, some j))
    (hP : ∀ k, R k j → P k) : 0 < w j := by
  rcases hpicked with ⟨hnone, -⟩ | ⟨first, i, rest, rfl, heq, -, hpos, hfirst, -⟩
  · cases hnone
  · obtain ⟨rfl, rfl⟩ : c = t.chain i ∧ j = i := by simpa using heq
    obtain ⟨after, rfl⟩ := hbefore
    obtain ⟨r, hprev, hchain, -⟩ := h.entry first j (rest ++ after) (by simp)
    rcases hprev with ⟨rfl, -⟩ | ⟨first', k, rest', rfl, rfl, hR, -, -, -⟩
    · omega
    · have hlt := hfirst k (by simp) (hP k hR)
      simp only at hchain
      omega

/-- The heaviest chain that ends in an element is found on the way back from it. -/
theorem Settled.exists_walk_entry (h : Settled w R l t) (hl : Hereditary R l)
    {before after : List ι} {i : ι} (heq : l = before ++ i :: after) :
    ∃ p, Walk t.pred (some i) (i :: p) ∧ p.reverse.Sublist before ∧
      (p.reverse ++ [i]).Pairwise R ∧ weight w (i :: p) = t.chain i ∧ ∀ j ∈ p, 0 < w j := by
  obtain ⟨⟨c, o⟩, hpicked, hchain, hpred⟩ := h.entry before i after heq
  have hpre : before <+: l := ⟨i :: after, heq.symm⟩
  have hcases := hpicked
  rcases hcases with ⟨hnone, -⟩ | ⟨first, j, rest, hbefore, hsome, hji, -, -, -⟩
  · obtain ⟨rfl, rfl⟩ : c = 0 ∧ o = none := by simpa using hnone
    refine ⟨[], .step (by rw [hpred]; exact .done), by simp, by simp, by simp [weight, hchain],
      by simp⟩
  · obtain ⟨rfl, rfl⟩ : c = t.chain j ∧ o = some j := by simpa using hsome
    have hl' : l = first ++ j :: (rest ++ i :: after) := by simp [heq, hbefore]
    obtain ⟨p, hwalk, hsub, hR, hweight, hpos⟩ := h.exists_walk_entry hl hl'
    have hjump : ∀ k, R k j → R k i := by
      have hpair := hl
      rw [hl', Hereditary, List.pairwise_append, List.pairwise_cons] at hpair
      exact hpair.2.1.1 i (by simp)
    refine ⟨j :: p, .step (by rwa [hpred]), ?_, ?_, ?_, ?_⟩
    · rw [hbefore, List.reverse_cons]
      exact hsub.append (List.singleton_sublist.mpr (by simp))
    · rw [List.reverse_cons, List.pairwise_append]
      refine ⟨hR, by simp, fun k hk m hm => ?_⟩
      obtain rfl := List.mem_singleton.mp hm
      rcases List.mem_append.mp hk with hin | hin
      · exact hjump k ((List.pairwise_append.mp hR).2.2 k hin j (by simp))
      · obtain rfl := List.mem_singleton.mp hin
        exact hji
    · simp only [weight, List.map_cons, List.sum_cons] at hweight ⊢
      omega
    · exact List.forall_mem_cons.mpr ⟨h.pos_of_picked hpre hpicked hjump, hpos⟩
termination_by before.length
decreasing_by
  rw [hbefore, List.length_append, List.length_cons]
  omega

/-- The way back from the end of the heaviest chain. -/
theorem Settled.exists_walk (h : Settled w R l t) (hl : Hereditary R l) :
    ∃ p, Walk t.pred t.last p ∧ p.reverse.Sublist l ∧ p.reverse.Pairwise R ∧
      weight w p = t.best ∧ ∀ j ∈ p, 0 < w j := by
  rcases h.last with ⟨hnone, -⟩ | ⟨before, i, after, heq, hsome, -⟩
  · obtain ⟨hbest, hlast⟩ : t.best = 0 ∧ t.last = none := by simpa using hnone
    exact ⟨[], by rw [hlast]; exact .done, by simp, by simp, by simp [weight, hbest], by simp⟩
  · obtain ⟨hbest, hlast⟩ : t.best = t.chain i ∧ t.last = some i := by simpa using hsome
    obtain ⟨p, hwalk, hsub, hR, hweight, hpos⟩ := h.exists_walk_entry hl heq
    have hi : 0 < w i := h.pos_of_picked List.prefix_rfl (hlast ▸ h.last) fun _ _ => trivial
    refine ⟨i :: p, by rwa [hlast], ?_, by rwa [List.reverse_cons], by rw [hweight, hbest],
      List.forall_mem_cons.mpr ⟨hi, hpos⟩⟩
    rw [heq, List.reverse_cons]
    exact hsub.append (List.singleton_sublist.mpr (by simp))

end Heaviest
end ServingObservatory.WeightedChains
