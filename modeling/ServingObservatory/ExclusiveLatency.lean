import ServingObservatory.LatencySweep

/-!
# Exclusive durations

For phases filled in by `add_phase`, whatever their ends, each exclusive duration is the
number of instants of the phase that no phase of a higher priority covers. These shares
partition the union of the intervals, so they add up to the covered time.
-/
namespace ServingObservatory
open Covering

/-- The arguments of `add_phase`. -/
structure PhaseCall where
  phase : Phase
  start : UInt64
  «end» : UInt64
  prov : Provenance := .unknown
  source : Str := []
  detail : Str := []

/-- The slots of a trace after some calls of `add_phase`. -/
def PhaseTable.fill (calls : List PhaseCall) : PhaseTable :=
  calls.foldl (fun t c => t.addPhase c.phase c.start c.end c.prov c.source c.detail) .empty

/-- A filled slot names its own phase. -/
def OwnPhases (t : PhaseTable) : Prop := ∀ p, (t p).present = true → (t p).phase = p

theorem ownPhases_empty : OwnPhases .empty := by
  intro p hp
  simp [PhaseTable.empty] at hp

theorem OwnPhases.addPhase {t : PhaseTable} (h : OwnPhases t) (p : Phase) (s e : UInt64)
    (prov : Provenance) (source detail : Str) :
    OwnPhases (t.addPhase p s e prov source detail) := by
  intro q hq
  by_cases hpq : q = p
  · subst hpq
    simp [PhaseTable.addPhase]
  · simp only [PhaseTable.addPhase, Function.update_of_ne hpq] at hq ⊢
    exact h q hq

theorem ownPhases_fill (calls : List PhaseCall) : OwnPhases (.fill calls) := by
  have hfold : ∀ (calls : List PhaseCall) (t : PhaseTable), OwnPhases t → OwnPhases
      (calls.foldl (fun t c => t.addPhase c.phase c.start c.end c.prov c.source c.detail) t) := by
    intro calls
    induction calls with
    | nil => exact fun t h => h
    | cons c calls ih => exact fun t h => ih _ (OwnPhases.addPhase h _ _ _ _ _ _)
  exact hfold calls _ ownPhases_empty

section Table
variable (t : PhaseTable)

/-- The phases that exist, without the total. -/
def livePhases : List Phase := Phase.all.filter fun p => (t p).present && p != .total

/-- The instants of a phase. -/
def instants (p : Phase) : Finset ℕ := Finset.Ico (t p).start.toNat (t p).end.toNat

/-- The instants of a phase that no phase of a higher priority covers. -/
def exclusiveInstants (p : Phase) : Finset ℕ :=
  share (livePhases t).toFinset (instants t) phasePriority p

theorem mem_livePhases (p : Phase) : p ∈ livePhases t ↔ (t p).present = true ∧ p ≠ .total := by
  simp [livePhases, Phase.mem_all]

theorem nodup_livePhases : (livePhases t).Nodup :=
  List.Nodup.sublist List.filter_sublist (by decide)

/-- The interval of a slot. -/
def slotInterval (p : Phase) : IV := ⟨p, (t p).start, (t p).end, (t p).provenance⟩

variable {t}

theorem intervals_eq (h : OwnPhases t) : intervals t = (livePhases t).map (slotInterval t) := by
  unfold intervals livePhases
  induction Phase.all with
  | nil => rfl
  | cons p l ih =>
    rw [List.filterMap_cons, ih, List.filter_cons]
    cases hpresent : (t p).present with
    | false => simp
    | true =>
      have hown := h p hpresent
      by_cases htotal : p = .total
      · subst htotal
        simp [hown]
      · simp [hown, htotal, slotInterval]

theorem phased_intervals (h : OwnPhases t) : Phased (intervals t) where
  ne_total := by
    intro iv hiv
    rw [intervals_eq h] at hiv
    obtain ⟨p, hp, rfl⟩ := List.mem_map.mp hiv
    exact ((mem_livePhases t p).mp hp).2
  nodup := by
    rw [intervals_eq h, List.map_map]
    exact (List.map_id (livePhases t)).symm ▸ nodup_livePhases t

theorem wonInstants_slotInterval (h : OwnPhases t) (p : Phase) :
    wonInstants (intervals t) (slotInterval t p) = exclusiveInstants t p := by
  ext x
  rw [wonInstants, exclusiveInstants, mem_share, Finset.mem_filter, intervals_eq h]
  refine and_congr Iff.rfl ?_
  simp only [List.forall_mem_map, List.mem_toFinset]
  refine forall₂_congr fun q hq => imp_congr_right fun _ => ?_
  simp [instants, slotInterval, IV.Covers]

end Table

/-- What an exact decomposition of the phases holds. -/
structure ExactDecomposition (t : PhaseTable) (b : LatencyBreakdown) : Prop where
  phases : b.components.map LatencyComponent.phase = livePhases t
  duration : ∀ c ∈ b.components, c.durationNs = (t c.phase).duration
  exclusive : ∀ c ∈ b.components, c.exclusiveNs.toNat = (exclusiveInstants t c.phase).card
  sum : (b.components.map fun c => c.exclusiveNs.toNat).sum = b.coveredNs.toNat
  covered : b.coveredNs.toNat = ((livePhases t).toFinset.biUnion (instants t)).card
  le_duration : ∀ c ∈ b.components, c.exclusiveNs ≤ c.durationNs
  no_overflow : NoOverflow (intervals t)
  no_sentinel : NoSentinelRead (intervals t)

theorem PhaseInterval.toNat_duration (p : PhaseInterval) :
    p.duration.toNat = p.end.toNat - p.start.toNat := by
  unfold duration
  split_ifs with h
  · exact UInt64.toNat_sub_of_le _ _ h
  · have hlt := UInt64.lt_iff_toNat_lt.mp (UInt64.not_le.mp h)
    rw [UInt64.toNat_zero]
    omega

section Decomposition
variable [Platform]

theorem decomposeLatency_of_absent {t : RequestTrace}
    (htotal : (t.getPhase .total).present = false) : decomposeLatency t = {} := by
  simp [decomposeLatency, htotal]

theorem decomposeLatency_totals {t : RequestTrace} (htotal : (t.getPhase .total).present = true) :
    (decomposeLatency t).totalNs = (t.getPhase .total).duration ∧
      (decomposeLatency t).coveredNs = (sweep (intervals t.phases)).covered ∧
      (decomposeLatency t).gapNs =
        if (decomposeLatency t).totalNs ≥ (decomposeLatency t).coveredNs then
          (decomposeLatency t).totalNs - (decomposeLatency t).coveredNs
        else 0 := by
  simp only [decomposeLatency, htotal, Bool.not_true, Bool.false_eq_true, if_false, and_self]

/-- The components are the intervals with their exclusive times. -/
theorem components_decomposeLatency {t : RequestTrace}
    (htotal : (t.getPhase .total).present = true) :
    (decomposeLatency t).components.map (fun c => (c.phase, c.durationNs, c.exclusiveNs)) =
      ((intervals t.phases).zip (sweep (intervals t.phases)).exclusive).map
        fun p => (p.1.phase, p.1.duration, p.2) := by
  have hfst : ∀ l : List (IV × UInt64), l.zipIdx.map Prod.fst = l := fun l => by simp
  simp only [decomposeLatency, htotal, Bool.not_true, Bool.false_eq_true, if_false, List.map_map]
  calc _ = (((intervals t.phases).zip (sweep (intervals t.phases)).exclusive).zipIdx.map
        Prod.fst).map fun p => (p.1.phase, p.1.duration, p.2) := by
        rw [List.map_map]
        rfl
    _ = _ := by rw [hfst]

/-- Each component is a slot with the time that its interval won. -/
theorem mem_components {t : RequestTrace} (hown : OwnPhases t.phases)
    (htotal : (t.getPhase .total).present = true) {c : LatencyComponent}
    (hc : c ∈ (decomposeLatency t).components) :
    c.durationNs = (t.phases c.phase).duration ∧
      c.exclusiveNs.toNat = (exclusiveInstants t.phases c.phase).card := by
  have hresult := sweep_result (phased_intervals hown)
  have hin := List.mem_map_of_mem (f := fun c : LatencyComponent =>
    (c.phase, c.durationNs, c.exclusiveNs)) hc
  rw [components_decomposeLatency htotal, List.mem_map] at hin
  obtain ⟨⟨iv, x⟩, hzip, heq⟩ := hin
  obtain ⟨i, hi, hget⟩ := List.mem_iff_getElem.mp hzip
  have hpair : (intervals t.phases)[i]? = some iv ∧
      (sweep (intervals t.phases)).exclusive[i]? = some x :=
    List.getElem?_zip_eq_some.mp (by rw [List.getElem?_eq_getElem hi, hget])
  have hx := hresult.exclusive i iv x hpair.1 hpair.2
  have hiv := List.mem_of_getElem? hpair.1
  rw [intervals_eq hown, List.mem_map] at hiv
  obtain ⟨p, -, rfl⟩ := hiv
  simp only [Prod.mk.injEq] at heq
  obtain ⟨hphase, hdur, rfl⟩ := heq
  rw [← hphase, ← hdur]
  exact ⟨rfl, hx.trans (congrArg Finset.card (wonInstants_slotInterval hown p))⟩

theorem phases_components {t : RequestTrace} (hown : OwnPhases t.phases)
    (htotal : (t.getPhase .total).present = true) :
    (decomposeLatency t).components.map LatencyComponent.phase = livePhases t.phases := by
  have hresult := sweep_result (phased_intervals hown)
  have hfst := congrArg (List.map Prod.fst) (components_decomposeLatency htotal)
  rw [List.map_map, List.map_map] at hfst
  have hzip : ((intervals t.phases).zip (sweep (intervals t.phases)).exclusive).map Prod.fst =
      intervals t.phases := List.map_fst_zip hresult.length.ge
  refine hfst.trans ?_
  calc _ = (((intervals t.phases).zip (sweep (intervals t.phases)).exclusive).map Prod.fst).map
        IV.phase := by simp
    _ = livePhases t.phases := by
      rw [hzip, intervals_eq hown, List.map_map]
      exact List.map_id _

/-- The exclusive times add up to the covered time as numbers. -/
theorem sum_components {t : RequestTrace} (hown : OwnPhases t.phases)
    (htotal : (t.getPhase .total).present = true) :
    ((decomposeLatency t).components.map fun c => c.exclusiveNs.toNat).sum =
      (decomposeLatency t).coveredNs.toNat := by
  have hresult := sweep_result (phased_intervals hown)
  have hsnd := congrArg (List.map fun p : Phase × UInt64 × UInt64 => p.2.2.toNat)
    (components_decomposeLatency htotal)
  rw [List.map_map, List.map_map] at hsnd
  have hzip : ((intervals t.phases).zip (sweep (intervals t.phases)).exclusive).map Prod.snd =
      (sweep (intervals t.phases)).exclusive := List.map_snd_zip hresult.length.le
  calc _ = (((intervals t.phases).zip (sweep (intervals t.phases)).exclusive).map
        (UInt64.toNat ∘ Prod.snd)).sum := congrArg List.sum hsnd
    _ = wordSum (sweep (intervals t.phases)).exclusive := by
      rw [← List.map_map, hzip, wordSum]
    _ = (decomposeLatency t).coveredNs.toNat := by
      rw [← hresult.covered, (decomposeLatency_totals htotal).2.1]

/-- The covered time is the size of the union of the phases. -/
theorem coveredNs_eq_card {t : RequestTrace} (hown : OwnPhases t.phases)
    (htotal : (t.getPhase .total).present = true) :
    (decomposeLatency t).coveredNs.toNat =
      ((livePhases t.phases).toFinset.biUnion (instants t.phases)).card := by
  have hcards : ((decomposeLatency t).components.map fun c => c.exclusiveNs.toNat) =
      (livePhases t.phases).map fun p => (exclusiveInstants t.phases p).card := by
    rw [← phases_components hown htotal, List.map_map]
    exact List.map_congr_left fun c hc => (mem_components hown htotal hc).2
  have hinj : Set.InjOn phasePriority ((livePhases t.phases).toFinset : Set Phase) :=
    fun p _ q _ hpq => phasePriority_inj hpq
  rw [← sum_components hown htotal, hcards, ← List.sum_toFinset _ (nodup_livePhases t.phases)]
  exact sum_card_share (instants t.phases) hinj

omit [Platform] in
/-- A phase has no more exclusive instants than its duration. -/
theorem card_exclusiveInstants_le (t : PhaseTable) (p : Phase) :
    (exclusiveInstants t p).card ≤ (t p).duration.toNat := by
  rw [PhaseInterval.toNat_duration]
  calc (exclusiveInstants t p).card ≤ (instants t p).card := Finset.card_le_card (share_subset ..)
    _ = _ := Nat.card_Ico _ _

theorem exactDecomposition {t : RequestTrace} (hown : OwnPhases t.phases)
    (htotal : (t.getPhase .total).present = true) :
    ExactDecomposition t.phases (decomposeLatency t) where
  phases := phases_components hown htotal
  duration c hc := (mem_components hown htotal hc).1
  exclusive c hc := (mem_components hown htotal hc).2
  sum := sum_components hown htotal
  covered := coveredNs_eq_card hown htotal
  le_duration c hc := by
    obtain ⟨hduration, hexclusive⟩ := mem_components hown htotal hc
    rw [UInt64.le_iff_toNat_le, hduration, hexclusive]
    exact card_exclusiveInstants_le t.phases c.phase
  no_overflow := noOverflow (phased_intervals hown)
  no_sentinel := noSentinelRead (phased_intervals hown)

/-- The exclusive sweep is exact, for phases with arbitrary ends. -/
theorem exclusive_sweep_exact (t : RequestTrace) (calls : List PhaseCall)
    (hcalls : t.phases = .fill calls) (htotal : (t.getPhase .total).present = true) :
    ExactDecomposition t.phases (decomposeLatency t) :=
  exactDecomposition (hcalls ▸ ownPhases_fill calls) htotal

end Decomposition

/-- Queueing around decoding, and a transfer that runs backwards. -/
theorem exclusive_sweep_exact_nested :
    let calls : List PhaseCall :=
      [⟨.queue, 10, 30, .unknown, [], []⟩, ⟨.decode, 15, 20, .unknown, [], []⟩,
        ⟨.transfer, 25, 12, .unknown, [], []⟩, ⟨.total, 10, 30, .unknown, [], []⟩]
    let t : RequestTrace := { phases := .fill calls }
    (t.getPhase .total).present = true ∧
      ExactDecomposition t.phases (@decomposeLatency Platform.machine t) ∧
      (exclusiveInstants t.phases .queue).card = 15 := by
  intro calls t
  exact ⟨by decide, @exclusive_sweep_exact Platform.machine t calls rfl (by decide), by decide⟩

end ServingObservatory
