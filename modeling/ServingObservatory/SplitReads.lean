import Mathlib.Tactic

/-!
# Parts of a changing state, read at different times

A state changes step by step, and each of its parts is read once. The values belong to
one moment unless a part changes after its read, and then or later another part changes
before it is read.
-/
namespace ServingObservatory.SplitReads
variable {σ β ι : Type*} {α : ι → Type*}

/-- The step from time `n` changes the part. -/
def ChangesAt (part : σ → β) (s : ℕ → σ) (n : ℕ) : Prop := part (s (n + 1)) ≠ part (s n)

/-- Some part changes after its read, and a part that is read later changes then or
after that, before its own read. -/
def Torn (part : (i : ι) → σ → α i) (s : ℕ → σ) (time : ι → ℕ) : Prop :=
  ∃ i j p q, time i ≤ p ∧ p ≤ q ∧ q < time j ∧ ChangesAt (part i) s p ∧ ChangesAt (part j) s q

/-- A value that was given up does not come back. -/
def NeverReturns (part : σ → β) (s : ℕ → σ) : Prop :=
  ∀ ⦃a b c⦄, a ≤ b → b ≤ c → part (s a) = part (s c) → part (s b) = part (s a)

theorem exists_change {part : σ → β} {s : ℕ → σ} {a b : ℕ} (hab : a ≤ b)
    (hne : part (s b) ≠ part (s a)) : ∃ p, a ≤ p ∧ p < b ∧ ChangesAt part s p := by
  induction b, hab using Nat.le_induction with
  | base => exact absurd rfl hne
  | succ b hab ih =>
    by_cases hstep : ChangesAt part s b
    · exact ⟨b, hab, Nat.lt_succ_self b, hstep⟩
    · obtain ⟨p, hap, hpb, hp⟩ := ih fun h => hne ((not_not.mp hstep).trans h)
      exact ⟨p, hap, hpb.trans (Nat.lt_succ_self b), hp⟩

/-- Since when a part has had its value. -/
theorem exists_since (part : σ → β) (s : ℕ → σ) (r : ℕ) : ∃ m ≤ r,
    (∀ n, m ≤ n → n ≤ r → part (s n) = part (s r)) ∧
      (m = 0 ∨ ∃ q, m = q + 1 ∧ ChangesAt part s q) := by
  induction r with
  | zero =>
    refine ⟨0, le_rfl, fun n _ hn => ?_, .inl rfl⟩
    rw [Nat.le_zero.mp hn]
  | succ r ih =>
    by_cases hstep : ChangesAt part s r
    · refine ⟨r + 1, le_rfl, fun n hn hn' => ?_, .inr ⟨r, rfl, hstep⟩⟩
      rw [le_antisymm hn' hn]
    · obtain ⟨m, hm, hsame, hsince⟩ := ih
      refine ⟨m, hm.trans (Nat.le_succ r), fun n hmn hn => ?_, hsince⟩
      rcases Nat.le_succ_iff.mp hn with hle | rfl
      · exact (hsame n hmn hle).trans (not_not.mp hstep).symm
      · rfl

/-- Reads that are not torn see one moment, which is not after the last of them. -/
theorem exists_moment [Finite ι] [Nonempty ι] {part : (i : ι) → σ → α i} {s : ℕ → σ}
    {time : ι → ℕ} (h : ¬ Torn part s time) :
    ∃ t, (∃ j, t ≤ time j) ∧ ∀ i, part i (s t) = part i (s (time i)) := by
  choose m hm hsame hsince using fun i => exists_since (part i) s (time i)
  obtain ⟨j, hj⟩ := Finite.exists_max m
  refine ⟨m j, ⟨j, hm j⟩, fun i => ?_⟩
  rcases le_or_gt (m j) (time i) with hle | hlt
  · exact hsame i (m j) (hj i) hle
  · by_contra hne
    obtain ⟨p, hip, hpj, hp⟩ := exists_change hlt.le hne
    rcases hsince j with hzero | ⟨q, hq, hchange⟩
    · omega
    · exact h ⟨i, j, p, q, hip, by omega, by have := hm j; omega, hp, hchange⟩

/-- Torn reads of parts that never return see no single moment. -/
theorem not_torn_of_moment {part : (i : ι) → σ → α i} {s : ℕ → σ} {time : ι → ℕ}
    (hreturns : ∀ i, NeverReturns (part i) s) {t : ℕ}
    (ht : ∀ i, part i (s t) = part i (s (time i))) : ¬ Torn part s time := by
  rintro ⟨i, j, p, q, hip, hpq, hqj, hp, hq⟩
  rcases Nat.lt_or_ge q t with hlt | hge
  · have hsame : ∀ n, time i ≤ n → n ≤ t → part i (s n) = part i (s (time i)) :=
      fun n hin hnt => hreturns i hin hnt (ht i).symm
    exact hp ((hsame (p + 1) (by omega) (by omega)).trans (hsame p hip (by omega)).symm)
  · have hsame : ∀ n, t ≤ n → n ≤ time j → part j (s n) = part j (s t) :=
      fun n htn hnj => hreturns j htn hnj (ht j)
    exact hq ((hsame (q + 1) (by omega) (by omega)).trans (hsame q hge (by omega)).symm)

/-- A part that only grows never returns. -/
theorem neverReturns_of_grows {part : σ → β} {s : ℕ → σ} (size : β → ℕ)
    (h : ∀ n, part (s (n + 1)) = part (s n) ∨ size (part (s n)) < size (part (s (n + 1)))) :
    NeverReturns part s := by
  have hmono : Monotone fun n => size (part (s n)) :=
    monotone_nat_of_le_succ fun n => (h n).elim (fun heq => (congrArg size heq).ge) le_of_lt
  intro a b c hab hbc hac
  by_contra hne
  obtain ⟨p, hap, hpb, hp⟩ := exists_change hab hne
  have hgrow := (h p).resolve_left hp
  have hlow : size (part (s a)) ≤ size (part (s p)) := hmono hap
  have hhigh : size (part (s (p + 1))) ≤ size (part (s c)) :=
    hmono (show p + 1 ≤ c from hpb.trans_le hbc)
  rw [hac] at hlow
  omega

end ServingObservatory.SplitReads
