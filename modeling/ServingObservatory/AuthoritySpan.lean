import ServingObservatory.LiveIndex
import ServingObservatory.TieBreaking

/-!
# Authority transitions of a trace

One fold over the sorted evidence keeps the boots, the generations and the range of
epochs. The first occurrences and the largest epoch come out right. The smallest epoch
takes zero for a value that was never set, so a later epoch overwrites epoch zero.
-/
namespace ServingObservatory
open Std Sorting

/-- The authority metadata of a trace says what occurs in the evidence. -/
structure TransitionsExact (obs : List Observation) (t : RequestTrace) : Prop where
  min_epoch : IsLeast {e | ∃ o ∈ obs, o.epoch = e} t.minEpoch
  max_epoch : IsGreatest {e | ∃ o ∈ obs, o.epoch = e} t.maxEpoch
  spans : t.spansMultipleEpochs = true ↔ ∃ o ∈ obs, ∃ o' ∈ obs, o.epoch ≠ o'.epoch
  boots : t.boots.Nodup ∧ ∀ b, b ∈ t.boots ↔ ∃ o ∈ obs, o.boot = b
  src_gens : t.srcGens.Nodup ∧ ∀ g, g ∈ t.srcGens ↔ ∃ o ∈ obs, o.srcGen = g
  obs_gens : t.obsGens.Nodup ∧ ∀ g, g ∈ t.obsGens ↔ ∃ o ∈ obs, o.obsGen = g

section FirstOccurrences
variable {α : Type} [BEq α] [LawfulBEq α]

theorem mem_pushNew (l : List α) (a b : α) : b ∈ pushNew l a ↔ b ∈ l ∨ b = a := by
  unfold pushNew
  split_ifs with h
  · have ha : a ∈ l := by simpa using h
    exact ⟨.inl, fun hb => hb.elim id (by rintro rfl; exact ha)⟩
  · simp

theorem nodup_pushNew {l : List α} (hl : l.Nodup) (a : α) : (pushNew l a).Nodup := by
  unfold pushNew
  split_ifs with h
  · exact hl
  · have ha : a ∉ l := by simpa using h
    exact List.concat_eq_append ▸ List.Nodup.concat ha hl

/-- The first occurrences are the elements, each of them once. -/
theorem foldl_pushNew (l acc : List α) (hacc : acc.Nodup) : (l.foldl pushNew acc).Nodup ∧
    ∀ a, a ∈ l.foldl pushNew acc ↔ a ∈ acc ∨ a ∈ l := by
  induction l generalizing acc with
  | nil => simpa using hacc
  | cons x l ih =>
    obtain ⟨hnodup, hmem⟩ := ih (pushNew acc x) (nodup_pushNew hacc x)
    refine ⟨hnodup, fun a => ?_⟩
    rw [List.foldl_cons, hmem, mem_pushNew, List.mem_cons, or_assoc]

end FirstOccurrences

section Epochs

/-- The update of the smallest epoch, where zero means unset. -/
def lowerEpoch (m e : UInt64) : UInt64 := if m == 0 || e < m then e else m

def raiseEpoch (m e : UInt64) : UInt64 := if e > m then e else m

theorem foldl_note_authority (obs : List Observation) (tr : RequestTrace) :
    (obs.foldl RequestTrace.note tr).boots = (obs.map (·.boot)).foldl pushNew tr.boots ∧
      (obs.foldl RequestTrace.note tr).srcGens = (obs.map (·.srcGen)).foldl pushNew tr.srcGens ∧
      (obs.foldl RequestTrace.note tr).obsGens = (obs.map (·.obsGen)).foldl pushNew tr.obsGens ∧
      (obs.foldl RequestTrace.note tr).minEpoch =
        (obs.map (·.epoch)).foldl lowerEpoch tr.minEpoch ∧
      (obs.foldl RequestTrace.note tr).maxEpoch =
        (obs.map (·.epoch)).foldl raiseEpoch tr.maxEpoch := by
  induction obs generalizing tr with
  | nil => exact ⟨rfl, rfl, rfl, rfl, rfl⟩
  | cons o obs ih => exact ih (tr.note o)

/-- Both folds over a single epoch give that epoch. -/
theorem foldl_epoch_eq {es : List UInt64} {e : UInt64} (h : ∀ x ∈ es, x = e) :
    es.foldl lowerEpoch 0 = es.foldl raiseEpoch 0 := by
  have hkeep : ∀ l : List UInt64, (∀ x ∈ l, x = e) →
      l.foldl lowerEpoch e = e ∧ l.foldl raiseEpoch e = e := by
    intro l hl
    induction l with
    | nil => exact ⟨rfl, rfl⟩
    | cons x l ih =>
      obtain rfl := hl x (by simp)
      have hlower : lowerEpoch x x = x := by simp [lowerEpoch]
      have hraise : raiseEpoch x x = x := by simp [raiseEpoch]
      rw [List.foldl_cons, List.foldl_cons, hlower, hraise]
      exact ih fun y hy => hl y (by simp [hy])
  cases es with
  | nil => rfl
  | cons x es =>
    obtain rfl := h x (by simp)
    have hlower : lowerEpoch 0 x = x := by simp [lowerEpoch]
    have hraise : raiseEpoch 0 x = x := by
      unfold raiseEpoch
      split_ifs with hpos
      · rfl
      · exact (UInt64.le_zero_iff.mp (UInt64.not_lt.mp hpos)).symm
    obtain ⟨hlow, hhigh⟩ := hkeep es fun y hy => h y (by simp [hy])
    rw [List.foldl_cons, List.foldl_cons, hlower, hraise, hlow, hhigh]

variable (es : List UInt64)

theorem isGreatest_foldl_raiseEpoch (m : UInt64) :
    IsGreatest {e | e = m ∨ e ∈ es} (es.foldl raiseEpoch m) := by
  induction es generalizing m with
  | nil =>
    refine ⟨.inl rfl, ?_⟩
    rintro e (rfl | hin)
    · exact UInt64.le_rfl
    · simp at hin
  | cons x es ih =>
    obtain ⟨hmem, hupper⟩ := ih (raiseEpoch m x)
    have hle : m ≤ raiseEpoch m x ∧ x ≤ raiseEpoch m x := by
      unfold raiseEpoch
      simp only [UInt64.le_iff_toNat_le, gt_iff_lt, UInt64.lt_iff_toNat_lt]
      split_ifs <;> omega
    have hor : raiseEpoch m x = m ∨ raiseEpoch m x = x := by
      unfold raiseEpoch
      split_ifs <;> simp
    have hbest : raiseEpoch m x ≤ es.foldl raiseEpoch (raiseEpoch m x) := hupper (.inl rfl)
    refine ⟨?_, ?_⟩
    · rcases hmem with heq | hin
      · rw [List.foldl_cons, heq]
        exact hor.imp id fun h => by simp [h]
      · exact .inr (List.mem_cons_of_mem _ hin)
    · rintro e (rfl | hin)
      · exact UInt64.le_trans hle.1 hbest
      · rcases List.mem_cons.mp hin with rfl | htail
        · exact UInt64.le_trans hle.2 hbest
        · exact hupper (.inr htail)

/-- Without epoch zero the smallest epoch is found, once one is set. -/
theorem isLeast_foldl_lowerEpoch {m : UInt64} (hm : m ≠ 0) (hes : ∀ e ∈ es, e ≠ 0) :
    IsLeast {e | e = m ∨ e ∈ es} (es.foldl lowerEpoch m) := by
  induction es generalizing m with
  | nil =>
    refine ⟨.inl rfl, ?_⟩
    rintro e (rfl | hin)
    · exact UInt64.le_rfl
    · simp at hin
  | cons x es ih =>
    have hx : x ≠ 0 := hes x (by simp)
    have hor : lowerEpoch m x = m ∨ lowerEpoch m x = x := by
      unfold lowerEpoch
      split_ifs <;> simp
    have hle : lowerEpoch m x ≤ m ∧ lowerEpoch m x ≤ x := by
      have hset : (m == 0) = false := by simpa using hm
      unfold lowerEpoch
      simp only [hset, Bool.false_or, decide_eq_true_eq, UInt64.le_iff_toNat_le,
        UInt64.lt_iff_toNat_lt]
      split_ifs <;> omega
    have hne : lowerEpoch m x ≠ 0 := by
      rcases hor with h | h <;> simpa [h]
    obtain ⟨hmem, hlower⟩ := ih hne fun e he => hes e (by simp [he])
    have hbest : es.foldl lowerEpoch (lowerEpoch m x) ≤ lowerEpoch m x := hlower (.inl rfl)
    refine ⟨?_, ?_⟩
    · rcases hmem with heq | hin
      · rw [List.foldl_cons, heq]
        exact hor.imp id fun h => by simp [h]
      · exact .inr (List.mem_cons_of_mem _ hin)
    · rintro e (rfl | hin)
      · exact UInt64.le_trans hbest hle.1
      · rcases List.mem_cons.mp hin with rfl | htail
        · exact UInt64.le_trans hbest hle.2
        · exact hlower (.inr htail)

/-- The result is zero exactly when the last epoch is. -/
theorem foldl_lowerEpoch_eq_zero_iff (m e : UInt64) :
    (es ++ [e]).foldl lowerEpoch m = 0 ↔ e = 0 := by
  rw [List.foldl_append, List.foldl_cons, List.foldl_nil]
  generalize es.foldl lowerEpoch m = x
  unfold lowerEpoch
  by_cases hx : x = 0
  · simp [hx]
  · have hset : (x == 0) = false := by simpa using hx
    simp only [hset, Bool.false_or, decide_eq_true_eq]
    have hzero : (0 : UInt64) < x := UInt64.pos_iff_ne_zero.mpr hx
    split_ifs with hlt
    · rfl
    · exact iff_of_false hx fun h => hlt (h ▸ hzero)

/-- The fold finds the smallest epoch unless it sees epoch zero and ends on another one. -/
theorem isLeast_lowerEpoch_iff (e : UInt64) :
    IsLeast {x | x ∈ es ++ [e]} ((es ++ [e]).foldl lowerEpoch 0) ↔
      (∀ x ∈ es ++ [e], x ≠ 0) ∨ e = 0 := by
  constructor
  · intro h
    refine or_iff_not_imp_right.mpr fun he x hx hzero => ?_
    subst hzero
    exact he ((foldl_lowerEpoch_eq_zero_iff es 0 e).mp (UInt64.le_zero_iff.mp (h.2 hx)))
  · rintro (hall | rfl)
    · obtain ⟨x, rest, heq⟩ := List.exists_cons_of_ne_nil (List.append_ne_nil_of_right_ne_nil es
        (List.cons_ne_nil e []))
      rw [heq] at hall ⊢
      have hfirst : lowerEpoch 0 x = x := by simp [lowerEpoch]
      rw [List.foldl_cons, hfirst]
      simpa [List.mem_cons] using
        isLeast_foldl_lowerEpoch rest (hall x (by simp)) fun y hy => hall y (by simp [hy])
    · rw [(foldl_lowerEpoch_eq_zero_iff es 0 0).mpr rfl]
      exact ⟨by simp, fun x _ => UInt64.zero_le⟩

end Epochs

/-- The ends of a range differ when two of its members do. -/
theorem ne_iff_exists_ne {obs : List Observation} {lo hi : UInt64}
    (hlo : IsLeast {e | ∃ o ∈ obs, o.epoch = e} lo)
    (hhi : IsGreatest {e | ∃ o ∈ obs, o.epoch = e} hi) :
    lo ≠ hi ↔ ∃ o ∈ obs, ∃ o' ∈ obs, o.epoch ≠ o'.epoch := by
  constructor
  · intro hne
    obtain ⟨o, ho, heq⟩ := hlo.1
    obtain ⟨o', ho', heq'⟩ := hhi.1
    exact ⟨o, ho, o', ho', heq ▸ heq' ▸ hne⟩
  · rintro ⟨o, ho, o', ho', hne⟩ rfl
    have hsame : ∀ x ∈ obs, x.epoch = lo := fun x hx =>
      UInt64.le_antisymm (hhi.2 ⟨x, hx, rfl⟩) (hlo.2 ⟨x, hx, rfl⟩)
    exact hne ((hsame o ho).trans (hsame o' ho').symm)

/-- The authority metadata are folds over the sorted evidence. -/
theorem reconstructTrace_authority [Platform] (obs : List Observation) (rid : RequestId) :
    (reconstructTrace obs rid).boots =
        ((sorter.sort traceLt obs).map (·.boot)).foldl pushNew [] ∧
      (reconstructTrace obs rid).srcGens =
        ((sorter.sort traceLt obs).map (·.srcGen)).foldl pushNew [] ∧
      (reconstructTrace obs rid).obsGens =
        ((sorter.sort traceLt obs).map (·.obsGen)).foldl pushNew [] ∧
      (reconstructTrace obs rid).minEpoch =
        ((sorter.sort traceLt obs).map (·.epoch)).foldl lowerEpoch 0 ∧
      (reconstructTrace obs rid).maxEpoch =
        ((sorter.sort traceLt obs).map (·.epoch)).foldl raiseEpoch 0 :=
  foldl_note_authority _ _

/-- A trace of sorted evidence is exact when the smallest epoch is. -/
theorem transitionsExact_iff_isLeast [Platform] {obs : List Observation} (hne : obs ≠ [])
    (rid : RequestId) : TransitionsExact obs (reconstructTrace obs rid) ↔
      IsLeast {e | ∃ o ∈ obs, o.epoch = e} (reconstructTrace obs rid).minEpoch := by
  refine ⟨fun h => h.min_epoch, fun hmin => ?_⟩
  obtain ⟨hboots, hsrc, hobs, -, hmaxEpoch⟩ := reconstructTrace_authority obs rid
  have hmap : ∀ {β : Type} (f : Observation → β) (b : β),
      b ∈ (sorter.sort traceLt obs).map f ↔ ∃ o ∈ obs, f o = b := by
    intro β f b
    simp only [List.mem_map, sorter.mem_sort]
  have hmax : IsGreatest {e | ∃ o ∈ obs, o.epoch = e} (reconstructTrace obs rid).maxEpoch := by
    have hgreatest := isGreatest_foldl_raiseEpoch ((sorter.sort traceLt obs).map (·.epoch)) 0
    rw [hmaxEpoch]
    simp only [hmap] at hgreatest
    obtain ⟨hattained, hupper⟩ := hgreatest
    refine ⟨hattained.elim (fun hzero => ?_) id, fun e he => hupper (.inr he)⟩
    obtain ⟨o, ho⟩ := List.exists_mem_of_ne_nil obs hne
    have hle := hupper (.inr ⟨o, ho, rfl⟩)
    rw [hzero] at hle ⊢
    exact ⟨o, ho, UInt64.le_zero_iff.mp hle⟩
  refine ⟨hmin, hmax, ?_, ?_, ?_, ?_⟩
  · exact bne_iff_ne.trans (ne_iff_exists_ne hmin hmax)
  · rw [hboots]
    simpa [hmap] using foldl_pushNew ((sorter.sort traceLt obs).map (·.boot)) [] List.nodup_nil
  · rw [hsrc]
    simpa [hmap] using foldl_pushNew ((sorter.sort traceLt obs).map (·.srcGen)) [] List.nodup_nil
  · rw [hobs]
    simpa [hmap] using foldl_pushNew ((sorter.sort traceLt obs).map (·.obsGen)) [] List.nodup_nil

/-- The trace is exact when there is no epoch zero or the last evidence has it. -/
theorem transitionsExact_iff_last [Platform] {obs : List Observation} (hne : obs ≠ [])
    (rid : RequestId) : TransitionsExact obs (reconstructTrace obs rid) ↔
      (∀ o ∈ obs, o.epoch ≠ 0) ∨
        ∀ o, (sorter.sort traceLt obs).reverse.find? (fun _ => true) = some o → o.epoch = 0 := by
  have hmem : ∀ o, o ∈ sorter.sort traceLt obs ↔ o ∈ obs := fun o => sorter.mem_sort
  obtain ⟨-, -, -, hminEpoch, -⟩ := reconstructTrace_authority obs rid
  rw [transitionsExact_iff_isLeast hne, hminEpoch]
  simp only [← hmem] at hne ⊢
  generalize sorter.sort traceLt obs = v at hmem ⊢
  rcases List.eq_nil_or_concat v with rfl | ⟨l, o, rfl⟩
  · exact absurd (List.eq_nil_iff_forall_not_mem.mpr fun o ho => by simpa using (hmem o).mpr ho) hne
  · rw [List.concat_eq_append]
    have hset : {e | ∃ x ∈ l ++ [o], x.epoch = e} = {e | e ∈ l.map (·.epoch) ++ [o.epoch]} := by
      ext e
      simp [eq_comm]
    have hiff := isLeast_lowerEpoch_iff (l.map (·.epoch)) o.epoch
    rw [← List.map_singleton, ← List.map_append] at hiff hset
    rw [hset]
    refine hiff.trans (or_congr ?_ ?_)
    · simp only [List.forall_mem_map]
    · simp

/-- The authority transitions are exact under every sort when no observation has epoch
zero, or when every observation that may be sorted last has it. -/
theorem transitionsExact_iff (obs : List Observation) (rid : RequestId) (hne : obs ≠ []) :
    (∀ P : Platform, TransitionsExact obs (@reconstructTrace P obs rid)) ↔
      (∀ o ∈ obs, o.epoch ≠ 0) ∨
        ∀ o ∈ obs, (∀ x ∈ obs, traceLt o x = false) → o.epoch = 0 := by
  have hlast := forall_sort_findLast?_iff strictWeak_traceLt (fun _ => true) obs
    fun o => o.epoch = 0
  have hplatform := Platform.forall_sorter_iff fun S => ∀ o,
    (S.sort traceLt obs).reverse.find? (fun _ => true) = some o → o.epoch = 0
  have hmaximal : (∀ o, Maximal traceLt (fun _ => true) obs o → o.epoch = 0) ↔
      ∀ o ∈ obs, (∀ x ∈ obs, traceLt o x = false) → o.epoch = 0 :=
    ⟨fun h o ho hmax => h o ⟨ho, rfl, fun x hx _ => hmax x hx⟩,
      fun h o hmax => h o hmax.mem fun x hx => hmax.least x hx rfl⟩
  have hexact : ∀ P : Platform, TransitionsExact obs (@reconstructTrace P obs rid) ↔ _ :=
    fun P => @transitionsExact_iff_last P obs hne rid
  rw [forall_congr' hexact, forall_or_left, hplatform, hlast, hmaximal]

/-- A request that is completed after a restart of the coordinator. -/
theorem transitionsExact_restarted :
    let obs : List Observation :=
      [{ type := .request, epoch := 3 }, { type := .completion, epoch := 4 }]
    ∀ P : Platform, TransitionsExact obs (@reconstructTrace P obs {}) := by
  intro obs
  exact (transitionsExact_iff obs {} (by simp [obs])).mpr (.inl (by simp [obs]))

/-- Epoch zero, and then epoch five. -/
def firstEpochs : List Observation :=
  [{ id := ⟨⟨0, 1⟩⟩, type := .request, hasRecvTs := true, recvTs := 1, epoch := 0 },
    { id := ⟨⟨0, 2⟩⟩, type := .completion, hasRecvTs := true, recvTs := 2, epoch := 5 }]

/-- The trace reports epoch five only. -/
theorem not_transitionsExact_firstEpochs :
    ¬ TransitionsExact firstEpochs (@reconstructTrace Platform.machine firstEpochs {}) := by
  let _ : Platform := Platform.machine
  have hascending : Ascending traceLt firstEpochs := by
    unfold Ascending firstEpochs
    decide
  have hsort : sorter.sort traceLt firstEpochs = firstEpochs :=
    sort_traceLt_eq_self (by decide) hascending
  rw [transitionsExact_iff_last (by simp [firstEpochs]), hsort]
  simp [firstEpochs]

end ServingObservatory
