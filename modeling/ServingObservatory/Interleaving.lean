import ServingObservatory.Machine

/-!
# Interleavings of independent streams

Several clients send their inputs to one machine, each in its own order. When
inputs of different clients commute up to an equivalence of states and do not
change each other's answers, all interleavings end in equivalent states and give
each client the same answers.
-/
namespace ServingObservatory.Interleaving
variable {σ ι α ο δ : Type*} [DecidableEq ι]

/-- The inputs of one client in a merged sequence. -/
def ofClient (i : ι) (l : List (ι × α)) : List α := (l.filter (·.1 = i)).map Prod.snd

/-- A merge of the streams that keeps the order of each. -/
def Interleaves (streams : ι → List α) (l : List (ι × α)) : Prop :=
  ∀ i, ofClient i l = streams i

/-- The answers that one client receives, as far as `view` shows them. -/
def answers (M : Machine σ α ο) (view : ο → δ) (s : σ) : List (ι × α) → ι → List δ
  | [], _ => []
  | x :: l, i =>
    (if x.1 = i then [view (M.out s x.2)] else []) ++ answers M view (M.next s x.2) l i

/-- The final state of a merged sequence. -/
def run (M : Machine σ α ο) (s : σ) (l : List (ι × α)) : σ := M.run s (l.map Prod.snd)

/-- Inputs that are apart commute up to `E` and do not see each other. -/
structure Independent (M : Machine σ α ο) (view : ο → δ) (E : σ → σ → Prop)
    (apart : α → α → Prop) : Prop where
  equiv : Equivalence E
  congr : ∀ {s t} x, E s t → E (M.next s x) (M.next t x) ∧ view (M.out s x) = view (M.out t x)
  commute : ∀ s {x y}, apart x y → E (M.next (M.next s x) y) (M.next (M.next s y) x)
  unseen : ∀ s {x y}, apart x y → view (M.out (M.next s x) y) = view (M.out s y)

theorem mem_ofClient {i : ι} {l : List (ι × α)} {a : α} : a ∈ ofClient i l ↔ (i, a) ∈ l := by
  simp [ofClient]

@[simp] theorem ofClient_nil (i : ι) : ofClient i ([] : List (ι × α)) = [] := rfl

@[simp] theorem ofClient_cons (i : ι) (x : ι × α) (l : List (ι × α)) :
    ofClient i (x :: l) = (if x.1 = i then [x.2] else []) ++ ofClient i l := by
  by_cases h : x.1 = i <;> simp [ofClient, h]

@[simp] theorem ofClient_append (i : ι) (l l' : List (ι × α)) :
    ofClient i (l ++ l') = ofClient i l ++ ofClient i l' := by
  simp [ofClient]

/-- The inputs of one client after the clients were given other names. -/
theorem ofClient_rename {κ : Type*} [DecidableEq κ] (e : ι ≃ κ) (l : List (ι × α)) (k : κ) :
    ofClient k (l.map (Prod.map e id)) = ofClient (e.symm k) l := by
  induction l with
  | nil => rfl
  | cons x l ih => simp [ih, Equiv.eq_symm_apply]

theorem answers_rename {κ : Type*} [DecidableEq κ] (e : ι ≃ κ) (M : Machine σ α ο) (view : ο → δ)
    (s : σ) (l : List (ι × α)) (k : κ) :
    answers M view s (l.map (Prod.map e id)) k = answers M view s l (e.symm k) := by
  induction l generalizing s with
  | nil => rfl
  | cons x l ih => simp [answers, ih, Equiv.eq_symm_apply]

theorem answers_concat (M : Machine σ α ο) (view : ο → δ) (s : σ) (l : List (ι × α)) (x : ι × α)
    (i : ι) : answers M view s (l ++ [x]) i =
      answers M view s l i ++ if x.1 = i then [view (M.out (run M s l) x.2)] else [] := by
  induction l generalizing s with
  | nil => simp [answers, run]
  | cons y l ih => simp [answers, run, ih]

/-- The first input of a client in a merged sequence, with what precedes it. -/
theorem exists_split {i : ι} {a : α} {rest : List α} {l : List (ι × α)}
    (h : ofClient i l = a :: rest) : ∃ p q, l = p ++ (i, a) :: q ∧ ∀ y ∈ p, y.1 ≠ i := by
  induction l with
  | nil => simp [ofClient] at h
  | cons x l ih =>
    rw [ofClient_cons] at h
    by_cases hx : x.1 = i
    · rw [if_pos hx, List.singleton_append] at h
      obtain ⟨rfl, -⟩ := List.cons.inj h
      exact ⟨[], l, by simp [← hx], by simp⟩
    · rw [if_neg hx, List.nil_append] at h
      obtain ⟨p, q, rfl, hp⟩ := ih h
      exact ⟨x :: p, q, rfl, by simpa [hx] using hp⟩

/-- The first input of a client is taken out of an interleaving. -/
theorem interleaves_remove {i : ι} {a : α} {l p q : List (ι × α)}
    (h : ∀ j, ofClient j (p ++ (i, a) :: q) = ofClient j ((i, a) :: l))
    (hp : ∀ y ∈ p, y.1 ≠ i) : Interleaves (fun j => ofClient j l) (p ++ q) := by
  intro j
  have hj := h j
  by_cases hij : i = j
  · subst hij
    have hnone : ofClient i p = [] := by
      simpa [ofClient] using hp
    simpa [hnone] using hj
  · simpa [hij] using hj

namespace Independent
variable {M : Machine σ α ο} {view : ο → δ} {E : σ → σ → Prop} {apart : α → α → Prop}

theorem run_congr (h : Independent M view E apart) {s t : σ} (hst : E s t) (l : List (ι × α)) :
    E (run M s l) (run M t l) ∧ answers M view s l = answers M view t l := by
  induction l generalizing s t with
  | nil => exact ⟨hst, rfl⟩
  | cons x l ih =>
    obtain ⟨hnext, hout⟩ := h.congr x.2 hst
    obtain ⟨hrun, hans⟩ := ih hnext
    refine ⟨hrun, ?_⟩
    funext i
    simp only [answers, hout, hans]

/-- An input moves to the front past inputs of other clients. -/
theorem move_front (h : Independent M view E apart) {i : ι} {a : α} {p : List (ι × α)}
    (hp : ∀ y ∈ p, y.1 ≠ i ∧ apart y.2 a ∧ apart a y.2) (q : List (ι × α)) (s : σ) :
    E (run M s (p ++ (i, a) :: q)) (run M s ((i, a) :: (p ++ q))) ∧
      answers M view s (p ++ (i, a) :: q) = answers M view s ((i, a) :: (p ++ q)) := by
  induction p generalizing s with
  | nil => exact ⟨h.equiv.refl _, rfl⟩
  | cons y p ih =>
    obtain ⟨⟨hyi, hya, hay⟩, hp⟩ := List.forall_mem_cons.mp hp
    obtain ⟨hrun, hans⟩ := ih hp (M.next s y.2)
    obtain ⟨hrun', hans'⟩ := h.run_congr (h.commute s hya) (p ++ q)
    refine ⟨h.equiv.trans hrun hrun', ?_⟩
    funext j
    simp only [List.cons_append, answers, hans, hans', h.unseen s hya, h.unseen s hay]
    by_cases hj : i = j
    · subst hj
      simp [hyi]
    · simp [hj]

/-- All interleavings of pairwise apart streams agree on the final state and on
the answers to every client. -/
theorem interleavings_agree (h : Independent M view E apart) {streams : ι → List α}
    (hapart : ∀ i j, i ≠ j → ∀ x ∈ streams i, ∀ y ∈ streams j, apart x y)
    {l l' : List (ι × α)} (hl : Interleaves streams l) (hl' : Interleaves streams l') (s : σ) :
    E (run M s l) (run M s l') ∧ answers M view s l = answers M view s l' := by
  induction l generalizing streams l' s with
  | nil =>
    cases l' with
    | nil => exact ⟨h.equiv.refl _, rfl⟩
    | cons x l' =>
      have hx := (hl' x.1).trans (hl x.1).symm
      simp [ofClient] at hx
  | cons x l ih =>
    obtain ⟨i, a⟩ := x
    have hi : ofClient i l' = a :: ofClient i l := by
      simpa using (hl' i).trans (hl i).symm
    obtain ⟨p, q, rfl, hp⟩ := exists_split hi
    have hmem : ∀ j b, (j, b) ∈ (i, a) :: l → b ∈ streams j := fun j b hb =>
      hl j ▸ mem_ofClient.mpr hb
    have hmove := h.move_front (i := i) (a := a) (p := p) (fun y hy => by
      have hy' : y.2 ∈ streams y.1 := hl' y.1 ▸ mem_ofClient.mpr (by simp [hy])
      have ha : a ∈ streams i := hmem i a List.mem_cons_self
      exact ⟨hp y hy, hapart _ _ (hp y hy) _ hy' _ ha, hapart _ _ (hp y hy).symm _ ha _ hy'⟩) q s
    have hrest := interleaves_remove (fun j => (hl' j).trans (hl j).symm) hp
    have htail : ∀ j k, j ≠ k → ∀ x ∈ ofClient j l, ∀ y ∈ ofClient k l, apart x y := by
      intro j k hjk x hx y hy
      exact hapart j k hjk x (hmem j x (List.mem_cons_of_mem _ (mem_ofClient.mp hx))) y
        (hmem k y (List.mem_cons_of_mem _ (mem_ofClient.mp hy)))
    obtain ⟨hrun, hans⟩ := ih htail (fun _ => rfl) hrest (M.next s a)
    refine ⟨h.equiv.trans hrun (h.equiv.symm hmove.1), ?_⟩
    rw [hmove.2]
    funext j
    simp only [answers, hans]

end Independent
end ServingObservatory.Interleaving
