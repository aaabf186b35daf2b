import ServingObservatory.Covering
import ServingObservatory.Latency

/-!
# The exclusive sweep

No end of an interval lies inside a segment of the sweep, so the middle of a segment
stands for all of it. The selection finds the covering phase of the highest priority,
and the sums of the sweep count instants.
-/
namespace ServingObservatory
open Covering

theorem phasePriority_inj {p q : Phase} (h : phasePriority p = phasePriority q) : p = q := by
  cases p <;> cases q <;> first | rfl | simp [phasePriority] at h

theorem phasePriority_nonneg {p : Phase} (h : p ≠ .total) : 0 ≤ phasePriority p := by
  cases p <;> first | exact absurd rfl h | decide

/-- The intervals of distinct phases, without the total. -/
structure Phased (ivs : List IV) : Prop where
  ne_total : ∀ iv ∈ ivs, iv.phase ≠ .total
  nodup : (ivs.map IV.phase).Nodup

theorem Phased.index_inj {ivs : List IV} (h : Phased ivs) {i j : ℕ} {x y : IV}
    (hi : ivs[i]? = some x) (hj : ivs[j]? = some y) (hxy : x.phase = y.phase) : i = j := by
  have hlen : i < (ivs.map IV.phase).length := by
    simpa using (List.getElem?_eq_some_iff.mp hi).1
  apply (List.getElem?_inj hlen h.nodup).mp
  simp [hi, hj, hxy]

/-- The instant lies in the half-open interval. -/
def IV.Covers (iv : IV) (x : ℕ) : Prop := iv.s.toNat ≤ x ∧ x < iv.e.toNat

instance (iv : IV) : DecidablePred iv.Covers := fun x =>
  inferInstanceAs (Decidable (iv.s.toNat ≤ x ∧ x < iv.e.toNat))

theorem IV.covers_iff (iv : IV) (x : UInt64) : iv.covers x = true ↔ iv.Covers x.toNat := by
  simp [covers, Covers, UInt64.le_iff_toNat_le, UInt64.lt_iff_toNat_lt]

/-- The interval covers the instant, and none of a higher priority does. -/
def Wins (ivs : List IV) (iv : IV) (x : ℕ) : Prop :=
  iv.Covers x ∧ ∀ iv' ∈ ivs, phasePriority iv.phase < phasePriority iv'.phase → ¬ iv'.Covers x

instance (ivs : List IV) (iv : IV) : DecidablePred (Wins ivs iv) := fun x =>
  inferInstanceAs (Decidable (iv.Covers x ∧ ∀ iv' ∈ ivs, _ → ¬ iv'.Covers x))

/-- The best of the intervals at the first `n` indices. -/
def Leads (ivs : List IV) (mid : UInt64) (n : ℕ) (b : Best) : Prop :=
  match b.index with
  | none => b.pri = -1 ∧ ∀ j iv, j < n → ivs[j]? = some iv → iv.covers mid = false
  | some i => ∃ iv, ivs[i]? = some iv ∧ iv.covers mid = true ∧ b.pri = phasePriority iv.phase ∧
      ∀ j iv', j < n → ivs[j]? = some iv' → iv'.covers mid = true →
        phasePriority iv'.phase ≤ b.pri

theorem lt_or_eq_of_getElem? {ivs : List IV} {n j : ℕ} {x iv : IV} (hx : ivs[n]? = some x)
    (hj : j < n + 1) (hiv : ivs[j]? = some iv) : j < n ∨ iv = x := by
  rcases Nat.lt_succ_iff_lt_or_eq.mp hj with hlt | rfl
  · exact .inl hlt
  · exact .inr (Option.some.inj (hiv.symm.trans hx))

theorem Leads.le {ivs : List IV} {mid : UInt64} {n : ℕ} {b : Best} (h : Leads ivs mid n b)
    {j : ℕ} {iv : IV} (hj : j < n) (hiv : ivs[j]? = some iv) (hcov : iv.covers mid = true) :
    phasePriority iv.phase ≤ b.pri := by
  unfold Leads at h
  split at h
  · rw [h.2 j iv hj hiv] at hcov
    cases hcov
  · exact h.choose_spec.2.2.2 j iv hj hiv hcov

/-- The best stays ahead of an interval that does not cover the instant, or that has
no higher priority. -/
theorem Leads.keep {ivs : List IV} {mid : UInt64} {n : ℕ} {b : Best} (h : Leads ivs mid n b)
    {x : IV} (hx : ivs[n]? = some x)
    (hnext : x.covers mid = true → b.index ≠ none ∧ phasePriority x.phase ≤ b.pri) :
    Leads ivs mid (n + 1) b := by
  obtain ⟨pri, index⟩ := b
  cases index with
  | none =>
    refine ⟨h.1, fun j iv hj hiv => ?_⟩
    rcases lt_or_eq_of_getElem? hx hj hiv with hlt | rfl
    · exact h.2 j iv hlt hiv
    · exact eq_false_of_ne_true fun hcov => (hnext hcov).1 rfl
  | some i =>
    obtain ⟨iv, hi, hcov, hpri, hmax⟩ := h
    refine ⟨iv, hi, hcov, hpri, fun j iv' hj hiv hcov' => ?_⟩
    rcases lt_or_eq_of_getElem? hx hj hiv with hlt | rfl
    · exact hmax j iv' hlt hiv hcov'
    · exact (hnext hcov').2

/-- A covering interval of at least the best priority takes the lead. -/
theorem Leads.take {ivs : List IV} {mid : UInt64} {n : ℕ} {b : Best} (h : Leads ivs mid n b)
    {x : IV} (hx : ivs[n]? = some x) (hcov : x.covers mid = true)
    (hpri : b.pri ≤ phasePriority x.phase) :
    Leads ivs mid (n + 1) { pri := phasePriority x.phase, index := some n } := by
  refine ⟨x, hx, hcov, rfl, fun j iv' hj hiv hcov' => ?_⟩
  rcases lt_or_eq_of_getElem? hx hj hiv with hlt | rfl
  · exact (h.le hlt hiv hcov').trans hpri
  · exact le_rfl

theorem Leads.step {ivs : List IV} (hphased : Phased ivs) {mid : UInt64} {n : ℕ} {b : Best}
    (h : Leads ivs mid n b) {x : IV} (hx : ivs[n]? = some x) :
    Leads ivs mid (n + 1) (selectStep ivs mid b (x, n)) := by
  have hpos := phasePriority_nonneg (hphased.ne_total x (List.mem_of_getElem? hx))
  cases hcov : x.covers mid with
  | false =>
    simp only [selectStep, hcov, Bool.false_eq_true, if_false]
    exact h.keep hx fun htrue => absurd (hcov.symm.trans htrue) Bool.false_ne_true
  | true =>
    simp only [selectStep, hcov, if_true]
    split_ifs with hbetter
    · exact h.take hx hcov (by omega)
    · refine h.keep hx fun _ => ⟨fun hnone => ?_, by omega⟩
      simp only [Leads, hnone] at h
      omega

theorem leads_foldl {ivs : List IV} (hphased : Phased ivs) (mid : UInt64) {l : List IV}
    (hl : l <+: ivs) : Leads ivs mid l.length (l.zipIdx.foldl (selectStep ivs mid) {}) := by
  induction l using List.reverseRecOn with
  | nil => exact ⟨rfl, by simp⟩
  | append_singleton l x ih =>
    have hx : ivs[l.length]? = some x := by
      obtain ⟨rest, rfl⟩ := hl
      simp
    have hprev := ih ((List.prefix_append l [x]).trans hl)
    rw [List.zipIdx_append, List.foldl_append, List.length_append]
    simpa using hprev.step hphased hx

/-- As long as no best phase is known the next priority is larger, so that the selection
never looks up the phase of a best that is not there. -/
def NoSentinelRead (ivs : List IV) : Prop :=
  ∀ mid l x, l ++ [x] <+: ivs → (l.zipIdx.foldl (selectStep ivs mid) {}).index = none →
    (l.zipIdx.foldl (selectStep ivs mid) {}).pri < phasePriority x.phase

theorem noSentinelRead {ivs : List IV} (hphased : Phased ivs) : NoSentinelRead ivs := by
  intro mid l x hl hnone
  have hleads := leads_foldl hphased mid ((List.prefix_append l [x]).trans hl)
  have hpos := phasePriority_nonneg (hphased.ne_total x (hl.subset (by simp)))
  simp only [Leads, hnone] at hleads
  omega

/-- The selected phase covers the instant, and no phase of a higher priority does. -/
theorem select_eq_some {ivs : List IV} (hphased : Phased ivs) {mid : UInt64} {i : ℕ}
    (h : select ivs mid = some i) : ∃ iv, ivs[i]? = some iv ∧ Wins ivs iv mid.toNat := by
  have hleads := leads_foldl hphased mid (List.prefix_refl ivs)
  unfold select at h
  simp only [Leads, h] at hleads
  obtain ⟨iv, hi, hc, hpri, hmax⟩ := hleads
  refine ⟨iv, hi, (iv.covers_iff mid).mp hc, fun iv' hmem hlt hcov => ?_⟩
  obtain ⟨j, hj, hget⟩ := List.mem_iff_getElem.mp hmem
  have hle := hmax j iv' hj (by simp [hj, hget]) ((iv'.covers_iff mid).mpr hcov)
  omega

/-- Without a selected phase nothing covers the instant. -/
theorem select_eq_none {ivs : List IV} (hphased : Phased ivs) {mid : UInt64}
    (h : select ivs mid = none) : ∀ iv ∈ ivs, ¬ iv.Covers mid.toNat := by
  have hleads := leads_foldl hphased mid (List.prefix_refl ivs)
  unfold select at h
  simp only [Leads, h] at hleads
  intro iv hmem
  obtain ⟨j, hj, hget⟩ := List.mem_iff_getElem.mp hmem
  rw [← iv.covers_iff, hleads.2 j iv hj (by simp [hj, hget])]
  exact Bool.false_ne_true

/-- A phase wins on all of a segment or nowhere on it. -/
theorem wins_iff_of_no_end {ivs : List IV} {a b x y : ℕ}
    (hends : ∀ iv ∈ ivs, ¬ (a < iv.s.toNat ∧ iv.s.toNat < b) ∧ ¬ (a < iv.e.toNat ∧ iv.e.toNat < b))
    (hx : a ≤ x ∧ x < b) (hy : a ≤ y ∧ y < b) {iv : IV} (hiv : iv ∈ ivs) :
    Wins ivs iv x ↔ Wins ivs iv y := by
  have hcov : ∀ iv ∈ ivs, iv.Covers x ↔ iv.Covers y := fun iv hiv =>
    covers_iff_of_no_end (hends iv hiv).1 (hends iv hiv).2 hx hy
  refine and_congr (hcov iv hiv) (forall₂_congr fun iv' hiv' => imp_congr_right fun _ => ?_)
  exact not_congr (hcov iv' hiv')

/-- The middle of a segment lies in it, and is computed without overflow. -/
theorem toNat_mid {prev cur : UInt64} (h : prev < cur) :
    (cur - prev).toNat = cur.toNat - prev.toNat ∧
      (prev + (cur - prev) / 2).toNat = prev.toNat + (cur.toNat - prev.toNat) / 2 := by
  have hlt := UInt64.lt_iff_toNat_lt.mp h
  have hsub : (cur - prev).toNat = cur.toNat - prev.toNat :=
    UInt64.toNat_sub_of_le _ _ (UInt64.le_of_lt h)
  have hbound := cur.toNat_lt
  refine ⟨hsub, ?_⟩
  rw [UInt64.toNat_add, UInt64.toNat_div, hsub]
  change (prev.toNat + (cur.toNat - prev.toNat) / 2) % 2 ^ 64 = _
  omega

/-- The sum of machine words as numbers. -/
def wordSum (l : List UInt64) : ℕ := (l.map UInt64.toNat).sum

theorem le_wordSum {l : List UInt64} {i : ℕ} {x : UInt64} (h : l[i]? = some x) :
    x.toNat ≤ wordSum l :=
  List.le_sum_of_mem (List.mem_map_of_mem (List.mem_of_getElem? h))

theorem wordSum_modify {l : List UInt64} {i : ℕ} {x y : UInt64} (h : l[i]? = some x)
    (hy : (x + y).toNat = x.toNat + y.toNat) :
    wordSum (l.modify i (· + y)) = wordSum l + y.toNat := by
  induction l generalizing i with
  | nil => simp at h
  | cons a l ih =>
    cases i with
    | zero =>
      obtain rfl : a = x := by simpa using h
      simp [wordSum, hy]
      omega
    | succ i =>
      have hrest := ih (by simpa using h)
      simp only [wordSum] at hrest
      simp [wordSum, hrest]
      omega

/-- The sums after the segments up to `prev`. -/
structure Swept (ivs : List IV) (first : UInt64) (st : Sweep) : Prop where
  le : first ≤ st.prev
  length : st.exclusive.length = ivs.length
  exclusive : ∀ (i : ℕ) (iv : IV) (x : UInt64), ivs[i]? = some iv → st.exclusive[i]? = some x →
    x.toNat = count (Wins ivs iv) first.toNat st.prev.toNat
  covered : st.covered.toNat = wordSum st.exclusive
  bound : st.covered.toNat ≤ st.prev.toNat - first.toNat

/-- The sums before a segment leave room for it. -/
theorem Swept.room {ivs : List IV} {first : UInt64} {st : Sweep} (h : Swept ivs first st)
    {cur : UInt64} (hlt : st.prev < cur) :
    st.covered.toNat + (cur - st.prev).toNat < 2 ^ 64 ∧
      ∀ x ∈ st.exclusive, x.toNat + (cur - st.prev).toNat < 2 ^ 64 := by
  have hsub := (toNat_mid hlt).1
  have hlt' := UInt64.lt_iff_toNat_lt.mp hlt
  have hcur := cur.toNat_lt
  have hbound := h.bound
  have hcovered : st.covered.toNat + (cur - st.prev).toNat < 2 ^ 64 := by omega
  refine ⟨hcovered, fun x hx => ?_⟩
  obtain ⟨i, hi, hget⟩ := List.mem_iff_getElem.mp hx
  have hle := le_wordSum (l := st.exclusive) (i := i) (x := x) (by simp [hi, hget])
  rw [← h.covered] at hle
  omega

/-- Two intervals that win an instant are the same. -/
theorem Phased.wins_unique {ivs : List IV} (h : Phased ivs) {i j x : ℕ} {iv iv' : IV}
    (hi : ivs[i]? = some iv) (hj : ivs[j]? = some iv') (hwins : Wins ivs iv x)
    (hwins' : Wins ivs iv' x) : i = j := by
  have hge := not_lt.mp fun hlt => hwins.2 iv' (List.mem_of_getElem? hj) hlt hwins'.1
  have hle := not_lt.mp fun hlt => hwins'.2 iv (List.mem_of_getElem? hi) hlt hwins.1
  exact h.index_inj hi hj (phasePriority_inj (le_antisymm hle hge))

/-- The instants up to the end of a segment, on which no interval ends. -/
theorem count_segment {ivs : List IV} {first prev cur : UInt64} (hle : first ≤ prev)
    (hlt : prev < cur)
    (hends : ∀ iv ∈ ivs, ¬ (prev.toNat < iv.s.toNat ∧ iv.s.toNat < cur.toNat) ∧
      ¬ (prev.toNat < iv.e.toNat ∧ iv.e.toNat < cur.toNat)) {iv : IV} (hiv : iv ∈ ivs) :
    count (Wins ivs iv) first.toNat cur.toNat =
      count (Wins ivs iv) first.toNat prev.toNat +
        if Wins ivs iv (prev + (cur - prev) / 2).toNat then cur.toNat - prev.toNat else 0 := by
  have hmid := (toNat_mid hlt).2
  have hlt' := UInt64.lt_iff_toNat_lt.mp hlt
  rw [← count_add _ (UInt64.le_iff_toNat_le.mp hle) hlt'.le, add_right_inj]
  exact count_of_constant _ fun x hx hx' =>
    wins_iff_of_no_end hends ⟨hx, hx'⟩ (by omega) hiv

section Segment
variable {ivs : List IV} {first cur : UInt64} {st : Sweep}

/-- A segment that is awarded to no phase. -/
theorem Swept.skip (h : Swept ivs first st) (hlt : st.prev < cur)
    (hends : ∀ iv ∈ ivs, ¬ (st.prev.toNat < iv.s.toNat ∧ iv.s.toNat < cur.toNat) ∧
      ¬ (st.prev.toNat < iv.e.toNat ∧ iv.e.toNat < cur.toNat))
    (hno : ∀ iv ∈ ivs, ¬ Wins ivs iv (st.prev + (cur - st.prev) / 2).toNat) :
    Swept ivs first { st with prev := cur } where
  le := UInt64.le_trans h.le (UInt64.le_of_lt hlt)
  length := h.length
  exclusive i iv x hi hx := by
    have hiv := List.mem_of_getElem? hi
    rw [count_segment h.le hlt hends hiv, if_neg (hno iv hiv)]
    exact h.exclusive i iv x hi hx
  covered := h.covered
  bound := by
    have hbound := h.bound
    have hlt' := UInt64.lt_iff_toNat_lt.mp hlt
    change st.covered.toNat ≤ cur.toNat - first.toNat
    omega

/-- A segment that is awarded to the phase with the index `best`. -/
theorem Swept.award (h : Swept ivs first st) (hlt : st.prev < cur)
    (hends : ∀ iv ∈ ivs, ¬ (st.prev.toNat < iv.s.toNat ∧ iv.s.toNat < cur.toNat) ∧
      ¬ (st.prev.toNat < iv.e.toNat ∧ iv.e.toNat < cur.toNat)) {best : ℕ} {top : IV}
    (htop : ivs[best]? = some top)
    (hwins : ∀ i iv, ivs[i]? = some iv →
      (Wins ivs iv (st.prev + (cur - st.prev) / 2).toNat ↔ best = i)) :
    Swept ivs first
      { exclusive := st.exclusive.modify best (· + (cur - st.prev))
        covered := st.covered + (cur - st.prev), prev := cur } := by
  have hsub := (toNat_mid hlt).1
  obtain ⟨hroom, hroomx⟩ := h.room hlt
  obtain ⟨y, hy⟩ : ∃ y, st.exclusive[best]? = some y := by
    have hlen := (List.getElem?_eq_some_iff.mp htop).1
    rw [← h.length] at hlen
    exact ⟨_, List.getElem?_eq_getElem hlen⟩
  have hadd : (y + (cur - st.prev)).toNat = y.toNat + (cur - st.prev).toNat := by
    rw [UInt64.toNat_add, Nat.mod_eq_of_lt (hroomx y (List.mem_of_getElem? hy))]
  have haddc : (st.covered + (cur - st.prev)).toNat =
      st.covered.toNat + (cur - st.prev).toNat := by
    rw [UInt64.toNat_add, Nat.mod_eq_of_lt hroom]
  constructor
  · exact UInt64.le_trans h.le (UInt64.le_of_lt hlt)
  · simp [h.length]
  · intro i iv x hi hx
    rw [count_segment h.le hlt hends (List.mem_of_getElem? hi)]
    rw [List.getElem?_modify] at hx
    by_cases hbest : best = i
    · subst hbest
      obtain rfl : top = iv := Option.some.inj (htop.symm.trans hi)
      obtain rfl : y + (cur - st.prev) = x := by simpa [hy] using hx
      rw [if_pos ((hwins best top hi).mpr rfl), ← h.exclusive best top y htop hy, hadd, hsub]
    · rw [if_neg (mt (hwins i iv hi).mp hbest)]
      exact h.exclusive i iv x hi (by simpa [hbest] using hx)
  · simp only
    rw [wordSum_modify hy hadd, ← h.covered, haddc]
  · have hbound := h.bound
    have hle := UInt64.le_iff_toNat_le.mp h.le
    have hlt' := UInt64.lt_iff_toNat_lt.mp hlt
    simp only
    rw [haddc, hsub]
    omega

/-- One segment, on which no interval ends. -/
theorem Swept.step (hphased : Phased ivs) (h : Swept ivs first st) (hlt : st.prev < cur)
    (hends : ∀ iv ∈ ivs, ¬ (st.prev.toNat < iv.s.toNat ∧ iv.s.toNat < cur.toNat) ∧
      ¬ (st.prev.toNat < iv.e.toNat ∧ iv.e.toNat < cur.toNat)) :
    Swept ivs first (sweepStep ivs st cur) ∧ (sweepStep ivs st cur).prev = cur := by
  simp only [sweepStep, if_neg (UInt64.ne_of_lt hlt).symm]
  cases hsel : select ivs (st.prev + (cur - st.prev) / 2) with
  | none =>
    have hno := select_eq_none hphased hsel
    exact ⟨h.skip hlt hends fun iv hiv hwins => hno iv hiv hwins.1, rfl⟩
  | some best =>
    obtain ⟨top, htop, hwins⟩ := select_eq_some hphased hsel
    refine ⟨h.award hlt hends htop fun i iv hi => ⟨fun hother => ?_, ?_⟩, rfl⟩
    · exact hphased.wins_unique htop hi hwins hother
    · rintro rfl
      obtain rfl : top = iv := Option.some.inj (htop.symm.trans hi)
      exact hwins

end Segment

/-- The sweep in front of the cuts that remain. -/
structure Sweeping (ivs : List IV) (first : UInt64) (st : Sweep) (rest : List UInt64) : Prop where
  swept : Swept ivs first st
  sorted : (st.prev :: rest).Pairwise (· < ·)
  starts : ∀ iv ∈ ivs, iv.s ≤ st.prev ∨ iv.s ∈ rest
  ends : ∀ iv ∈ ivs, iv.e ≤ st.prev ∨ iv.e ∈ rest

theorem Sweeping.step {ivs : List IV} (hphased : Phased ivs) {first cur : UInt64} {st : Sweep}
    {rest : List UInt64} (h : Sweeping ivs first st (cur :: rest)) :
    Sweeping ivs first (sweepStep ivs st cur) rest := by
  have hsorted := List.pairwise_cons.mp h.sorted
  have hlt : st.prev < cur := hsorted.1 cur (by simp)
  have hpast : ∀ {x}, x ≤ st.prev ∨ x ∈ cur :: rest → x ≤ cur ∨ x ∈ rest := by
    intro x hx
    rcases hx with hle | hmem
    · exact .inl (UInt64.le_trans hle (UInt64.le_of_lt hlt))
    · rcases List.mem_cons.mp hmem with rfl | hrest
      · exact .inl UInt64.le_rfl
      · exact .inr hrest
  have hno : ∀ {x}, x ≤ st.prev ∨ x ∈ cur :: rest →
      ¬ (st.prev.toNat < x.toNat ∧ x.toNat < cur.toNat) := by
    rintro x (hle | hmem) ⟨hgt, hlt'⟩
    · exact absurd (UInt64.le_iff_toNat_le.mp hle) (by omega)
    · rcases List.mem_cons.mp hmem with rfl | hrest
      · exact lt_irrefl _ hlt'
      · have hcur := UInt64.lt_iff_toNat_lt.mp ((List.pairwise_cons.mp hsorted.2).1 x hrest)
        omega
  obtain ⟨hswept, hprev⟩ := h.swept.step hphased hlt fun iv hiv =>
    ⟨hno (h.starts iv hiv), hno (h.ends iv hiv)⟩
  refine ⟨hswept, ?_, fun iv hiv => ?_, fun iv hiv => ?_⟩
  · rw [hprev]
    exact hsorted.2
  · rw [hprev]
    exact hpast (h.starts iv hiv)
  · rw [hprev]
    exact hpast (h.ends iv hiv)

/-- The sweep over a first part of the cuts. -/
theorem Sweeping.run {ivs : List IV} (hphased : Phased ivs) {first : UInt64} {st : Sweep}
    {pre rest : List UInt64} (h : Sweeping ivs first st (pre ++ rest)) :
    Sweeping ivs first (pre.foldl (sweepStep ivs) st) rest := by
  induction pre generalizing st with
  | nil => exact h
  | cons cur pre ih => exact ih (h.step hphased)

theorem mem_coords (ivs : List IV) (x : UInt64) :
    x ∈ coords ivs ↔ ∃ iv ∈ ivs, x = iv.s ∨ x = iv.e := by
  have hfold : ∀ (ivs : List IV) (c : Std.ExtTreeSet UInt64),
      x ∈ ivs.foldl (fun c iv => (c.insert iv.s).insert iv.e) c ↔
        x ∈ c ∨ ∃ iv ∈ ivs, x = iv.s ∨ x = iv.e := by
    intro ivs
    induction ivs with
    | nil => simp
    | cons iv ivs ih =>
      intro c
      rw [List.foldl_cons, ih]
      simp only [Std.ExtTreeSet.mem_insert, Std.compare_eq_iff_eq, List.exists_mem_cons_iff,
        eq_comm (b := x)]
      grind
  rw [coords, Std.ExtTreeSet.mem_toList, hfold]
  simp

theorem pairwise_coords (ivs : List IV) : (coords ivs).Pairwise (· < ·) := by
  refine Std.ExtTreeSet.ordered_toList.imp fun {a b} hab => ?_
  exact compareOfLessAndEq_eq_lt.mp hab

/-- The state in front of the first cut. -/
def sweepStart (ivs : List IV) (first : UInt64) : Sweep :=
  { exclusive := ivs.map fun _ => 0, covered := 0, prev := first }

theorem wordSum_zeros (ivs : List IV) : wordSum (ivs.map fun _ => (0 : UInt64)) = 0 := by
  induction ivs with
  | nil => rfl
  | cons iv ivs ih => simp [wordSum]

theorem sweeping_start {ivs : List IV} {first : UInt64} {rest : List UInt64}
    (h : coords ivs = first :: rest) : Sweeping ivs first (sweepStart ivs first) rest := by
  have hmem : ∀ {x}, x ∈ coords ivs → x ≤ first ∨ x ∈ rest := by
    intro x hx
    rw [h] at hx
    rcases List.mem_cons.mp hx with rfl | hrest
    · exact .inl UInt64.le_rfl
    · exact .inr hrest
  refine ⟨⟨UInt64.le_rfl, by simp [sweepStart], fun i iv x hi hx => ?_, ?_, by simp [sweepStart]⟩,
    h ▸ pairwise_coords ivs, fun iv hiv => ?_, fun iv hiv => ?_⟩
  · rw [sweepStart, List.getElem?_map, hi] at hx
    obtain rfl : 0 = x := by simpa using hx
    rw [sweepStart, count_self]
    rfl
  · exact (wordSum_zeros ivs).symm
  · exact hmem ((mem_coords ivs _).mpr ⟨iv, hiv, .inl rfl⟩)
  · exact hmem ((mem_coords ivs _).mpr ⟨iv, hiv, .inr rfl⟩)

theorem sweep_eq {ivs : List IV} {first : UInt64} {rest : List UInt64}
    (h : coords ivs = first :: rest) :
    (sweep ivs).exclusive = (rest.foldl (sweepStep ivs) (sweepStart ivs first)).exclusive ∧
      (sweep ivs).covered = (rest.foldl (sweepStep ivs) (sweepStart ivs first)).covered := by
  unfold sweep
  rw [h]
  cases rest with
  | nil => exact ⟨rfl, rfl⟩
  | cons second rest => exact ⟨rfl, rfl⟩

/-- The instants that a phase wins. -/
def wonInstants (ivs : List IV) (iv : IV) : Finset ℕ :=
  {x ∈ Finset.Ico iv.s.toNat iv.e.toNat |
    ∀ iv' ∈ ivs, phasePriority iv.phase < phasePriority iv'.phase → ¬ iv'.Covers x}

/-- A range around the interval counts the won instants. -/
theorem count_wins (ivs : List IV) (iv : IV) {a b : ℕ} (ha : a ≤ iv.s.toNat)
    (hb : iv.e.toNat ≤ b) : count (Wins ivs iv) a b = (wonInstants ivs iv).card := by
  apply congrArg Finset.card
  ext x
  rw [wonInstants, Finset.mem_filter, Finset.mem_filter, Finset.mem_Ico, Finset.mem_Ico]
  constructor
  · rintro ⟨-, hcov, hmax⟩
    exact ⟨hcov, hmax⟩
  · rintro ⟨hcov, hmax⟩
    exact ⟨⟨ha.trans hcov.1, hcov.2.trans_le hb⟩, hcov, hmax⟩

/-- What the sweep computes: for each interval the number of instants that it wins. -/
structure SweepResult (ivs : List IV) (st : Sweep) : Prop where
  length : st.exclusive.length = ivs.length
  exclusive : ∀ (i : ℕ) (iv : IV) (x : UInt64), ivs[i]? = some iv → st.exclusive[i]? = some x →
    x.toNat = (wonInstants ivs iv).card
  covered : st.covered.toNat = wordSum st.exclusive

theorem sweep_result {ivs : List IV} (hphased : Phased ivs) : SweepResult ivs (sweep ivs) := by
  cases hcoords : coords ivs with
  | nil =>
    have hempty : ivs = [] := by
      rw [List.eq_nil_iff_forall_not_mem]
      intro iv hiv
      have hmem := (mem_coords ivs iv.s).mpr ⟨iv, hiv, .inl rfl⟩
      rw [hcoords] at hmem
      simp at hmem
    subst hempty
    exact ⟨rfl, by simp, rfl⟩
  | cons first rest =>
    obtain ⟨hexclusive, hcovered⟩ := sweep_eq hcoords
    have hstart := sweeping_start hcoords
    rw [← List.append_nil rest] at hstart
    have hend := hstart.run hphased
    refine ⟨hexclusive ▸ hend.swept.length, fun i iv x hi hx => ?_, ?_⟩
    · rw [hexclusive] at hx
      rw [hend.swept.exclusive i iv x hi hx]
      have hiv := List.mem_of_getElem? hi
      have hs : iv.s ∈ first :: rest := hcoords ▸ (mem_coords ivs _).mpr ⟨iv, hiv, .inl rfl⟩
      have hfirst : first ≤ iv.s := by
        rcases List.mem_cons.mp hs with heq | hrest
        · exact UInt64.le_of_eq heq.symm
        · exact UInt64.le_of_lt ((List.pairwise_cons.mp (hcoords ▸ pairwise_coords ivs)).1 _ hrest)
      have hlast := (hend.ends iv hiv).resolve_right (by simp)
      exact count_wins ivs iv (UInt64.le_iff_toNat_le.mp hfirst) (UInt64.le_iff_toNat_le.mp hlast)
    · rw [hexclusive, hcovered]
      exact hend.swept.covered

/-- Every addition of the sweep stays below 2^64: that of the middle, that of the
covered time and that of any component. -/
def NoOverflow (ivs : List IV) : Prop :=
  ∀ first pre cur post, coords ivs = first :: (pre ++ cur :: post) →
    let st := pre.foldl (sweepStep ivs) (sweepStart ivs first)
    st.prev.toNat + ((cur - st.prev) / 2).toNat < 2 ^ 64 ∧
      st.covered.toNat + (cur - st.prev).toNat < 2 ^ 64 ∧
      ∀ x ∈ st.exclusive, x.toNat + (cur - st.prev).toNat < 2 ^ 64

theorem noOverflow {ivs : List IV} (hphased : Phased ivs) : NoOverflow ivs := by
  intro first pre cur post hcoords st
  have hrun : Sweeping ivs first st (cur :: post) := (sweeping_start hcoords).run hphased
  have hlt : st.prev < cur := (List.pairwise_cons.mp hrun.sorted).1 cur (by simp)
  refine ⟨?_, hrun.swept.room hlt⟩
  have hsub := (toNat_mid hlt).1
  have hlt' := UInt64.lt_iff_toNat_lt.mp hlt
  have hcur := cur.toNat_lt
  rw [UInt64.toNat_div, hsub]
  change st.prev.toNat + (cur.toNat - st.prev.toNat) / 2 < 2 ^ 64
  omega

end ServingObservatory
