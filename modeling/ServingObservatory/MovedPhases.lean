import ServingObservatory.CriticalPath

/-!
# Phases on a moved clock

The decomposition compares the ends of phases and takes their differences. So moving all
ends by the same amount moves the instants that each phase wins, and changes no figure.
-/
namespace ServingObservatory
open Covering Sorting

/-- The same phases exist, and their ends are later by a constant. -/
def Moved (k : ℕ) (t t' : PhaseTable) : Prop :=
  ∀ p, (t' p).present = (t p).present ∧ ((t p).present = true →
    (t' p).start.toNat = (t p).start.toNat + k ∧ (t' p).end.toNat = (t p).end.toNat + k)

/-- The figures of two breakdowns agree: the totals, and for each component its phase, its
durations and whether it is on the critical path. -/
structure SameFigures (b b' : LatencyBreakdown) : Prop where
  total : b'.totalNs = b.totalNs
  covered : b'.coveredNs = b.coveredNs
  gap : b'.gapNs = b.gapNs
  exclusive : b'.components.map (fun c => (c.phase, c.durationNs, c.exclusiveNs)) =
    b.components.map fun c => (c.phase, c.durationNs, c.exclusiveNs)
  critical : b'.components.map (·.onCriticalPath) = b.components.map (·.onCriticalPath)

section Table
variable {k : ℕ} {t t' : PhaseTable} (h : Moved k t t')
include h

theorem Moved.livePhases_eq : livePhases t' = livePhases t := by
  unfold livePhases
  exact congrArg (Phase.all.filter ·) (funext fun p => by rw [(h p).1])

theorem Moved.duration_eq {p : Phase} (hp : (t p).present = true) :
    (t' p).duration = (t p).duration := by
  obtain ⟨hs, he⟩ := (h p).2 hp
  rw [← UInt64.toNat_inj, PhaseInterval.toNat_duration, PhaseInterval.toNat_duration, hs, he]
  omega

/-- The instants that a phase wins move along. -/
theorem Moved.exclusiveInstants_eq {p : Phase} (hp : p ∈ livePhases t) :
    exclusiveInstants t' p = (exclusiveInstants t p).map (addRightEmbedding k) := by
  have hinstants : ∀ q ∈ livePhases t,
      instants t' q = (instants t q).map (addRightEmbedding k) := by
    intro q hq
    obtain ⟨hs, he⟩ := (h q).2 ((mem_livePhases t q).mp hq).1
    rw [instants, instants, Finset.map_add_right_Ico, hs, he]
  rw [exclusiveInstants, exclusiveInstants, h.livePhases_eq, ← share_map]
  exact share_congr (fun q hq => hinstants q (List.mem_toFinset.mp hq)) (List.mem_toFinset.mpr hp)

end Table

/-- The interval with both ends later by a constant. -/
structure IV.Moved (k : ℕ) (x x' : IV) : Prop where
  phase : x'.phase = x.phase
  s : x'.s.toNat = x.s.toNat + k
  e : x'.e.toNat = x.e.toNat + k

/-- The same intervals, each moved. -/
def MovedAll (k : ℕ) (ivs ivs' : List IV) : Prop := List.Forall₂ (IV.Moved k) ivs ivs'

theorem Moved.intervals {k : ℕ} {t t' : PhaseTable} (h : Moved k t t') (hown : OwnPhases t)
    (hown' : OwnPhases t') : MovedAll k (intervals t) (intervals t') := by
  rw [MovedAll, intervals_eq hown, intervals_eq hown', h.livePhases_eq, List.forall₂_map_left_iff,
    List.forall₂_map_right_iff, List.forall₂_same]
  intro p hp
  obtain ⟨hs, he⟩ := (h p).2 ((mem_livePhases t p).mp hp).1
  exact ⟨rfl, hs, he⟩

section Intervals
variable {k : ℕ} {ivs ivs' : List IV}

theorem MovedAll.getElem? (h : MovedAll k ivs ivs') (i : ℕ) :
    (ivs[i]? = none ∧ ivs'[i]? = none) ∨
      ∃ x x', ivs[i]? = some x ∧ ivs'[i]? = some x' ∧ x.Moved k x' := by
  by_cases hi : i < ivs.length
  · have hi' : i < ivs'.length := h.length_eq ▸ hi
    exact .inr ⟨_, _, List.getElem?_eq_getElem hi, List.getElem?_eq_getElem hi', h.get hi hi'⟩
  · have hi' : ¬ i < ivs'.length := h.length_eq ▸ hi
    exact .inl ⟨by simpa using hi, by simpa using hi'⟩

variable (h : MovedAll k ivs ivs')
include h

theorem MovedAll.chainLt_eq : chainLt ivs' = chainLt ivs := by
  funext a b
  unfold chainLt
  rcases h.getElem? a with ⟨ha, ha'⟩ | ⟨x, x', ha, ha', hx⟩
  · rw [ha, ha']
  · rcases h.getElem? b with ⟨hb, hb'⟩ | ⟨y, y', hb, hb', hy⟩
    · rw [ha, ha', hb, hb']
    · simp only [ha, ha', hb, hb', ne_eq, ← UInt64.toNat_inj, UInt64.lt_iff_toNat_lt, hx.s, hx.e,
        hy.s, hy.e, Nat.add_right_cancel_iff, Nat.add_lt_add_iff_right]

theorem MovedAll.duration_eq (i : ℕ) : ivs'[i]?.map IV.duration = ivs[i]?.map IV.duration := by
  rcases h.getElem? i with ⟨hi, hi'⟩ | ⟨x, x', hi, hi', hx⟩
  · rw [hi, hi']
  · rw [hi, hi', Option.map_some, Option.map_some, Option.some_inj, ← UInt64.toNat_inj,
      IV.toNat_duration, IV.toNat_duration, hx.s, hx.e]
    omega

theorem MovedAll.chainPred_eq : chainPred ivs' = chainPred ivs := by
  funext chain before i
  unfold chainPred
  refine List.foldl_ext _ _ _ fun acc j _ => ?_
  rcases h.getElem? j with ⟨hj, hj'⟩ | ⟨y, y', hj, hj', hy⟩
  · rw [hj, hj']
  · rcases h.getElem? i with ⟨hi, hi'⟩ | ⟨x, x', hi, hi', hx⟩
    · rw [hi, hi', hj, hj']
    · simp only [hi, hi', hj, hj', UInt64.le_iff_toNat_le, hx.s, hy.e, Nat.add_le_add_iff_right]

theorem MovedAll.chainStep_eq (order : List ℕ) : chainStep ivs' order = chainStep ivs order := by
  funext c x
  simp only [chainStep, h.chainPred_eq, h.duration_eq]

theorem MovedAll.criticalPath_eq [Platform] : criticalPath ivs' = criticalPath ivs := by
  have hconst : ∀ {α : Type} (a : α), ivs'.map (fun _ => a) = ivs.map fun _ => a := fun a => by
    rw [List.map_const', List.map_const', h.length_eq]
  have htable : chainTable ivs' = chainTable ivs := by
    simp only [chainTable, h.chainLt_eq, h.chainStep_eq, hconst, h.length_eq]
  rw [criticalPath, criticalPath, htable, h.length_eq]

end Intervals

section Decomposition
variable [Platform] {k : ℕ} {t t' : RequestTrace}

/-- The components of the phases that exist, from their instants. -/
theorem exclusive_components (hown : OwnPhases t.phases)
    (htotal : (t.getPhase .total).present = true) :
    (decomposeLatency t).components.map (fun c => (c.phase, c.durationNs, c.exclusiveNs)) =
      (livePhases t.phases).map fun p =>
        (p, (t.phases p).duration, UInt64.ofNat (exclusiveInstants t.phases p).card) := by
  rw [← phases_components hown htotal, List.map_map]
  refine List.map_congr_left fun c hc => ?_
  obtain ⟨hduration, hexclusive⟩ := mem_components hown htotal hc
  simp [← hduration, ← hexclusive]

/-- Moving all phases by the same amount changes no figure. -/
theorem sameFigures_of_moved (h : Moved k t.phases t'.phases) (hown : OwnPhases t.phases)
    (hown' : OwnPhases t'.phases) : SameFigures (decomposeLatency t) (decomposeLatency t') := by
  cases htotal : (t.getPhase .total).present with
  | false =>
    have htotal' : (t'.getPhase .total).present = false := (h .total).1.trans htotal
    rw [decomposeLatency_of_absent htotal, decomposeLatency_of_absent htotal']
    exact ⟨rfl, rfl, rfl, rfl, rfl⟩
  | true =>
    have htotal' : (t'.getPhase .total).present = true := (h .total).1.trans htotal
    have hexclusive : (decomposeLatency t').components.map
        (fun c => (c.phase, c.durationNs, c.exclusiveNs)) =
        (decomposeLatency t).components.map fun c => (c.phase, c.durationNs, c.exclusiveNs) := by
      rw [exclusive_components hown htotal, exclusive_components hown' htotal', h.livePhases_eq]
      refine List.map_congr_left fun p hp => ?_
      rw [h.duration_eq ((mem_livePhases _ p).mp hp).1, h.exclusiveInstants_eq hp, Finset.card_map]
    have hcovered : (decomposeLatency t').coveredNs = (decomposeLatency t).coveredNs := by
      have hsum := congrArg (fun l => (l.map fun c => c.2.2.toNat).sum) hexclusive
      simp only [List.map_map, Function.comp_def] at hsum
      rw [← UInt64.toNat_inj, ← sum_components hown htotal, ← sum_components hown' htotal', hsum]
    have htotalNs : (decomposeLatency t').totalNs = (decomposeLatency t).totalNs := by
      rw [(decomposeLatency_totals htotal).1, (decomposeLatency_totals htotal').1]
      exact h.duration_eq htotal
    refine ⟨htotalNs, hcovered, ?_, hexclusive, ?_⟩
    · rw [(decomposeLatency_totals htotal).2.2, (decomposeLatency_totals htotal').2.2, htotalNs,
        hcovered]
    · have hmoved := h.intervals hown hown'
      have hmarks := congrArg (List.map fun c => c.2.2) (marks_components htotal)
      have hmarks' := congrArg (List.map fun c => c.2.2) (marks_components htotal')
      simp only [List.map_map, Function.comp_def, hmoved.criticalPath_eq] at hmarks hmarks'
      rw [hmarks, hmarks']
      have hsnd : ∀ ivs : List IV,
          (ivs.zipIdx.map fun z => (criticalPath (intervals t.phases)).contains z.2) =
            (List.range ivs.length).map (criticalPath (intervals t.phases)).contains := by
        intro ivs
        rw [List.range_eq_range', ← List.zipIdx_map_snd, List.map_map]
        rfl
      rw [hsnd, hsnd, hmoved.length_eq]

end Decomposition
end ServingObservatory
