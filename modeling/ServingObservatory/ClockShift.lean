import ServingObservatory.MovedPhases
import ServingObservatory.RequestBounds

/-!
# A shifted clock

Adding a constant to every timestamp keeps the order of the evidence, and with it the
observations that phases are taken from. Only a time of zero stays where it is: it stands for
a missing timestamp.
-/
namespace ServingObservatory
open Std Sorting

/-- Adds to the timestamps that are present. -/
def Observation.shift (k : UInt64) (o : Observation) : Observation :=
  { o with
    obsTs := if o.hasObsTs then o.obsTs + k else o.obsTs
    recvTs := if o.hasRecvTs then o.recvTs + k else o.recvTs }

/-- No present timestamp overflows. -/
def Observation.Fits (k : UInt64) (o : Observation) : Prop :=
  (o.hasRecvTs = true → o.recvTs.toNat + k.toNat < 2 ^ 64) ∧
    (o.hasObsTs = true → o.obsTs.toNat + k.toNat < 2 ^ 64)

/-- The timestamp by which the observation is dated, if it has one, is not zero. -/
def Observation.DatedApart (o : Observation) : Prop :=
  o.hasRecvTs = true ∨ o.hasObsTs = true → (obsTime o).ts ≠ 0

instance (k : UInt64) (o : Observation) : Decidable (o.Fits k) :=
  inferInstanceAs (Decidable (_ ∧ _))

instance (o : Observation) : Decidable o.DatedApart :=
  inferInstanceAs (Decidable (_ ∨ _ → _))

/-- A time on the shifted clock, where zero stands for a missing one. -/
def later (k s : UInt64) : UInt64 := if s = 0 then 0 else s + k

section Times
variable {k a b : UInt64} (ha : a.toNat + k.toNat < 2 ^ 64) (hb : b.toNat + k.toNat < 2 ^ 64)

theorem later_zero (k : UInt64) : later k 0 = 0 := if_pos rfl

include ha in
theorem toNat_later (hne : a ≠ 0) : (later k a).toNat = a.toNat + k.toNat := by
  rw [later, if_neg hne, UInt64.toNat_add, Nat.mod_eq_of_lt ha]

include ha in
theorem later_eq_zero_iff : later k a = 0 ↔ a = 0 := by
  by_cases hne : a = 0
  · simp [hne, later_zero]
  · have hlater := toNat_later ha hne
    rw [← UInt64.toNat_inj] at hne ⊢
    rw [← UInt64.toNat_inj, hlater]
    simp only [UInt64.toNat_zero] at hne ⊢
    omega

include ha hb

/-- The shifted clock keeps the order, with the missing time first. -/
theorem later_lt_iff : later k a < later k b ↔ a < b := by
  by_cases hae : a = 0
  · subst hae
    rw [later_zero, UInt64.pos_iff_ne_zero, UInt64.pos_iff_ne_zero, ne_eq, later_eq_zero_iff hb]
  · by_cases hbe : b = 0
    · subst hbe
      rw [later_zero]
      exact iff_of_false UInt64.not_lt_zero UInt64.not_lt_zero
    · rw [UInt64.lt_iff_toNat_lt, UInt64.lt_iff_toNat_lt, toNat_later ha hae, toNat_later hb hbe]
      omega

theorem later_inj : later k a = later k b ↔ a = b := by
  constructor
  · intro heq
    have hab := (later_lt_iff ha hb).not.mp (heq ▸ UInt64.lt_irrefl _)
    have hba := (later_lt_iff hb ha).not.mp (heq ▸ UInt64.lt_irrefl _)
    exact UInt64.le_antisymm (UInt64.not_lt.mp hba) (UInt64.not_lt.mp hab)
  · rintro rfl
    rfl

end Times

section Observations
variable {k : UInt64} {o a b : Observation}

theorem fits_obsTime (h : o.Fits k) : (obsTime o).ts.toNat + k.toNat < 2 ^ 64 := by
  have hk := k.toNat_lt
  unfold obsTime
  split_ifs with hrecv hobs
  · exact h.1 hrecv
  · exact h.2 hobs
  · simpa using hk

theorem obsTime_shift (h : o.DatedApart) : obsTime (o.shift k) =
    { ts := later k (obsTime o).ts, inRecvDomain := (obsTime o).inRecvDomain } := by
  unfold Observation.DatedApart at h
  unfold obsTime Observation.shift at *
  dsimp only at *
  split_ifs at * with hrecv hobs
  · simp [later, h (.inl hrecv)]
  · simp [later, h (.inr hobs)]
  · simp [later_zero]

theorem traceLt_shift (ha : a.Fits k ∧ a.DatedApart) (hb : b.Fits k ∧ b.DatedApart) :
    traceLt (a.shift k) (b.shift k) = traceLt a b := by
  have hfa := fits_obsTime ha.1
  have hfb := fits_obsTime hb.1
  simp only [traceLt, obsTime_shift ha.2, obsTime_shift hb.2, ne_eq, later_inj hfa hfb,
    later_lt_iff hfa hfb]
  rfl

end Observations

/-- The evidence can be shifted: no timestamp overflows, and none that dates an observation is
zero. -/
def Shiftable (k : UInt64) (v : List Observation) : Prop := ∀ o ∈ v, o.Fits k ∧ o.DatedApart

section Evidence
variable {k : UInt64} {v : List Observation} (h : Shiftable k v)
include h

theorem Shiftable.ascending (hv : Ascending traceLt v) :
    Ascending traceLt (v.map (Observation.shift k)) := by
  refine List.pairwise_map.mpr (List.Pairwise.imp_of_mem (fun {a b} ha hb hlt => ?_) hv)
  rw [traceLt_shift (h b hb) (h a ha)]
  exact hlt

theorem Shiftable.fits_tdom {o : Option Observation} (ho : ∀ x ∈ o, x ∈ v) :
    (tdom o).ts.toNat + k.toNat < 2 ^ 64 := by
  cases o with
  | none => simpa [tdom] using k.toNat_lt
  | some x => exact fits_obsTime (h x (ho x rfl)).1

theorem Shiftable.ts_tdom {o : Option Observation} (ho : ∀ x ∈ o, x ∈ v) :
    (tdom (o.map (Observation.shift k))).ts = later k (tdom o).ts := by
  cases o with
  | none => rw [Option.map_none, tdom, later_zero]
  | some x => rw [Option.map_some, tdom_some, tdom_some, obsTime_shift (h x (ho x rfl)).2]

omit h in
theorem firstObs_shift (k : UInt64) (v : List Observation) (t : ObsType) :
    firstObs (v.map (Observation.shift k)) t = (firstObs v t).map (Observation.shift k) := by
  rw [firstObs, List.find?_map]
  rfl

omit h in
theorem lastObs_shift (k : UInt64) (v : List Observation) (t : ObsType) :
    lastObs (v.map (Observation.shift k)) t = (lastObs v t).map (Observation.shift k) := by
  rw [lastObs, ← List.map_reverse, List.find?_map]
  rfl

theorem Shiftable.ts_firstObs (t : ObsType) :
    (tdom (firstObs (v.map (Observation.shift k)) t)).ts = later k (tdom (firstObs v t)).ts := by
  rw [firstObs_shift, h.ts_tdom fun _ => mem_of_firstObs]

theorem Shiftable.ts_lastObs (t : ObsType) :
    (tdom (lastObs (v.map (Observation.shift k)) t)).ts = later k (tdom (lastObs v t)).ts := by
  rw [lastObs_shift, h.ts_tdom fun _ => mem_of_lastObs]

theorem Shiftable.fits_firstObs (t : ObsType) :
    (tdom (firstObs v t)).ts.toNat + k.toNat < 2 ^ 64 := h.fits_tdom fun _ => mem_of_firstObs

theorem Shiftable.fits_lastObs (t : ObsType) :
    (tdom (lastObs v t)).ts.toNat + k.toNat < 2 ^ 64 := h.fits_tdom fun _ => mem_of_lastObs

theorem Shiftable.fits_arrivalTime : (arrivalTime v).ts.toNat + k.toNat < 2 ^ 64 := by
  unfold arrivalTime
  dsimp only
  split_ifs <;> first
    | exact h.fits_firstObs _
    | exact h.fits_tdom fun _ => List.mem_of_mem_head?

theorem Shiftable.fits_completionTime : (completionTime v).ts.toNat + k.toNat < 2 ^ 64 := by
  unfold completionTime
  dsimp only
  split_ifs
  · exact h.fits_tdom fun _ => List.mem_of_mem_getLast?
  · exact h.fits_lastObs _

theorem Shiftable.ts_arrivalTime :
    (arrivalTime (v.map (Observation.shift k))).ts = later k (arrivalTime v).ts := by
  have hhead := h.ts_tdom (o := v.head?) fun _ => List.mem_of_mem_head?
  rw [← List.head?_map] at hhead
  by_cases hreq : (tdom (firstObs v .request)).ts = 0
  · simp only [arrivalTime, apply_ite TimedObs.ts, h.ts_firstObs, hhead, List.isEmpty_map, hreq,
      later_zero, if_true, later_eq_zero_iff (h.fits_firstObs _)]
    split_ifs <;> rfl
  · simp only [arrivalTime, h.ts_firstObs, hreq, if_false, false_and,
      later_eq_zero_iff (h.fits_firstObs _)]

theorem Shiftable.ts_completionTime :
    (completionTime (v.map (Observation.shift k))).ts = later k (completionTime v).ts := by
  have hlast := h.ts_tdom (o := v.getLast?) fun _ => List.mem_of_mem_getLast?
  rw [← List.getLast?_map] at hlast
  simp only [completionTime, apply_ite TimedObs.ts, h.ts_lastObs, hlast, List.isEmpty_map,
    later_eq_zero_iff (h.fits_lastObs _)]
  split_ifs <;> rfl

theorem Shiftable.fits_closingTime : (closingTime v).toNat + k.toNat < 2 ^ 64 := by
  unfold closingTime
  split_ifs
  · simpa using k.toNat_lt
  · exact h.fits_arrivalTime
  · exact h.fits_completionTime

theorem Shiftable.closingTime_shift :
    closingTime (v.map (Observation.shift k)) = later k (closingTime v) := by
  simp only [closingTime, h.ts_arrivalTime, h.ts_completionTime,
    later_eq_zero_iff h.fits_arrivalTime, later_lt_iff h.fits_completionTime h.fits_arrivalTime]
  split_ifs
  · rw [later_zero]
  · rfl
  · rfl

end Evidence

/-- An addition on the shifted clock. -/
structure Addition.Later (k : UInt64) (x y : Addition) : Prop where
  phase : y.phase = x.phase
  applies : y.applies ↔ x.applies
  ends : x.applies → y.start.toNat = x.start.toNat + k.toNat ∧ y.end.toNat = x.end.toNat + k.toNat

section Additions
variable {k a b c : UInt64} (ha : a.toNat + k.toNat < 2 ^ 64) (hb : b.toNat + k.toNat < 2 ^ 64)
  (hc : c.toNat + k.toNat < 2 ^ 64) (p : Phase)
include ha

theorem later_moment :
    Addition.Later k ⟨p, a ≠ 0, a, a⟩ ⟨p, later k a ≠ 0, later k a, later k a⟩ where
  phase := rfl
  applies := (later_eq_zero_iff ha).not
  ends hne := ⟨toNat_later ha hne, toNat_later ha hne⟩

include hb

theorem later_span : Addition.Later k ⟨p, a ≠ 0 ∧ b ≠ 0, a, b⟩
    ⟨p, later k a ≠ 0 ∧ later k b ≠ 0, later k a, later k b⟩ where
  phase := rfl
  applies := and_congr (later_eq_zero_iff ha).not (later_eq_zero_iff hb).not
  ends hne := ⟨toNat_later ha hne.1, toNat_later hb hne.2⟩

/-- The batch wait, which starts with a time where the dispatch has one. -/
theorem later_batchWait {q : Prop} (hstart : q → b ≠ 0 → a ≠ 0) : Addition.Later k
    ⟨p, q ∧ b ≠ 0, a, b⟩ ⟨p, q ∧ later k b ≠ 0, later k a, later k b⟩ where
  phase := rfl
  applies := and_congr Iff.rfl (later_eq_zero_iff hb).not
  ends hne := ⟨toNat_later ha (hstart hne.1 hne.2), toNat_later hb hne.2⟩

include hc

theorem later_dispatch : Addition.Later k
    ⟨p, a ≠ 0, a, if executionStart b c < a then a else executionStart b c⟩
    ⟨p, later k a ≠ 0, later k a, if executionStart (later k b) (later k c) < later k a
      then later k a else executionStart (later k b) (later k c)⟩ := by
  have hexec : (executionStart b c).toNat + k.toNat < 2 ^ 64 := by
    unfold executionStart
    split_ifs
    · exact hc
    · exact hb
  have hlater : executionStart (later k b) (later k c) = later k (executionStart b c) := by
    simp only [executionStart, later_eq_zero_iff hb]
    split_ifs <;> rfl
  refine ⟨rfl, (later_eq_zero_iff ha).not, fun hne => ⟨toNat_later ha hne, ?_⟩⟩
  simp only [hlater, later_lt_iff hexec ha]
  split_ifs with hlt
  · exact toNat_later ha hne
  · refine toNat_later hexec fun hzero => hlt ?_
    rw [hzero]
    exact UInt64.pos_iff_ne_zero.mpr hne

/-- The first token, from the end of prefill and the ends of decoding. -/
theorem later_firstToken : Addition.Later k
    ⟨p, b ≠ 0 ∧ c ≠ 0, firstTokenStart a b, firstTokenEnd a b c⟩
    ⟨p, later k b ≠ 0 ∧ later k c ≠ 0, firstTokenStart (later k a) (later k b),
      firstTokenEnd (later k a) (later k b) (later k c)⟩ := by
  have hfits : (firstTokenStart a b).toNat + k.toNat < 2 ^ 64 := by
    unfold firstTokenStart
    split_ifs
    · exact ha
    · exact hb
  have hlater : firstTokenStart (later k a) (later k b) = later k (firstTokenStart a b) := by
    simp only [firstTokenStart, ne_eq, later_eq_zero_iff ha]
    split_ifs <;> rfl
  refine ⟨rfl, and_congr (later_eq_zero_iff hb).not (later_eq_zero_iff hc).not, fun hne => ?_⟩
  simp only [firstTokenEnd, hlater, later_lt_iff hc hfits]
  constructor
  · refine toNat_later hfits ?_
    unfold firstTokenStart
    split_ifs with hpe
    · exact hpe
    · exact hne.1
  · split_ifs
    · exact toNat_later hb hne.1
    · exact toNat_later hc hne.2

end Additions

/-- The start of the batch wait has a time where the dispatch has one. -/
def BatchWaitDated (obs : List Observation) : Prop :=
  occurs obs .batchForm = true ∨ occurs obs .batchSeal = true → earliest obs .dispatch ≠ 0 →
    batchTime obs ≠ 0

instance (obs : List Observation) : Decidable (BatchWaitDated obs) :=
  inferInstanceAs (Decidable (_ ∨ _ → _ → _))

section Shifted
variable {k : UInt64} {v obs : List Observation}

/-- The additions are the same for every arrangement of the evidence that ascends. -/
theorem additions_of_perm {w : List Observation} (hperm : v.Perm w) (hv : Ascending traceLt v)
    (hw : Ascending traceLt w) : additions v = additions w ∧
      (arrivalTime v).ts = (arrivalTime w).ts ∧ closingTime v = closingTime w := by
  have hrefl := List.Perm.refl w
  refine ⟨?_, ?_, ?_⟩
  · simp only [additions, ts_firstObs hperm hv, ts_lastObs hperm hv, ts_arrivalTime hperm hv,
      ts_batchTime hperm hv, isSome_firstObs hperm, ts_firstObs hrefl hw, ts_lastObs hrefl hw,
      ts_arrivalTime hrefl hw, ts_batchTime hrefl hw, isSome_firstObs hrefl]
  · rw [ts_arrivalTime hperm hv, ts_arrivalTime hrefl hw]
  · rw [closingTime_eq hperm hv, closingTime_eq hrefl hw]

theorem later_additions (h : Shiftable k v) (hperm : v.Perm obs) (hsorted : Ascending traceLt v)
    (hbatch : BatchWaitDated obs) :
    List.Forall₂ (Addition.Later k) (additions v) (additions (v.map (Observation.shift k))) := by
  have hf := h.fits_firstObs
  have hl := h.fits_lastObs
  obtain ⟨hwait, hfits⟩ : (tdom (firstObs (v.map (Observation.shift k)) .batchForm <|>
      firstObs (v.map (Observation.shift k)) .batchSeal)).ts =
      later k (tdom (firstObs v .batchForm <|> firstObs v .batchSeal)).ts ∧
      (tdom (firstObs v .batchForm <|> firstObs v .batchSeal)).ts.toNat + k.toNat < 2 ^ 64 := by
    rw [firstObs_shift, firstObs_shift]
    cases hform : firstObs v .batchForm with
    | none => exact ⟨h.ts_tdom fun _ => mem_of_firstObs, hf _⟩
    | some o =>
      have hin : ∀ x ∈ some o, x ∈ v := fun x hx => mem_of_firstObs (hform.trans hx)
      exact ⟨h.ts_tdom hin, h.fits_tdom hin⟩
  have hstart : (firstObs v .batchForm).isSome ∨ (firstObs v .batchSeal).isSome →
      (tdom (firstObs v .dispatch)).ts ≠ 0 →
      (tdom (firstObs v .batchForm <|> firstObs v .batchSeal)).ts ≠ 0 := by
    rw [isSome_firstObs hperm, isSome_firstObs hperm, ts_firstObs hperm hsorted,
      ts_batchTime hperm hsorted]
    exact hbatch
  simp only [additions, h.ts_firstObs, h.ts_lastObs, h.ts_arrivalTime, hwait]
  simp only [firstObs_shift, Option.isSome_map]
  exact .cons (later_moment h.fits_arrivalTime _) <| .cons (later_moment (hf _) _) <|
    .cons (later_span (hf _) (hl _) _) <| .cons (later_batchWait hfits (hf _) _ hstart) <|
    .cons (later_dispatch (hf _) (hf _) (hf _) _) <| .cons (later_span (hf _) (hl _) _) <|
    .cons (later_span (hf _) (hl _) _) <| .cons (later_firstToken (hl _) (hf _) (hl _) _) <|
    .cons (later_span (hf _) (hl _) _) <| .cons (later_span (hf _) (hl _) _) <|
    .cons (later_moment (hf _) _) <| .cons (later_moment (hf _) _) <|
    .cons (later_moment (hl _) _) .nil

theorem exists_addition {p : Phase} (hp : p ≠ .total) (v : List Observation) :
    ∃ x ∈ additions v, x.phase = p := by
  have hmem : p ∈ (additions v).map Addition.phase := by
    cases p <;> first | exact absurd rfl hp | simp [additions]
  exact List.mem_map.mp hmem

/-- The phases of shifted evidence are those of the evidence, moved. -/
theorem moved_extractPhases (h : Shiftable k v) (hperm : v.Perm obs) (hsorted : Ascending traceLt v)
    (hbatch : BatchWaitDated obs) {w : List Observation}
    (hw : w.Perm (v.map (Observation.shift k))) (hascending : Ascending traceLt w) :
    Moved k.toNat (extractPhases v) (extractPhases w) := by
  obtain ⟨hadditions, harrival, hclosing⟩ := additions_of_perm hw hascending (h.ascending hsorted)
  intro p
  by_cases hp : p = .total
  · subst hp
    obtain ⟨hpresent, hs, he⟩ := extractPhases_total v
    obtain ⟨hpresent', hs', he'⟩ := extractPhases_total w
    rw [hpresent, hpresent', hs, hs', he, he', harrival, hclosing, h.ts_arrivalTime,
      h.closingTime_shift]
    refine ⟨?_, fun hne => ?_⟩
    · rw [Bool.eq_iff_iff, bne_iff_ne, bne_iff_ne, ne_eq, later_eq_zero_iff h.fits_arrivalTime]
    · have ha : (arrivalTime v).ts ≠ 0 := by simpa using hne
      refine ⟨toNat_later h.fits_arrivalTime ha, toNat_later h.fits_closingTime ?_⟩
      rw [closingTime, if_neg ha]
      split_ifs with hlt
      · exact ha
      · intro hzero
        exact hlt (hzero ▸ UInt64.pos_iff_ne_zero.mpr ha)
  · have hlater := later_additions h hperm hsorted hbatch
    rw [← hadditions] at hlater
    obtain ⟨x, hx, rfl⟩ := exists_addition hp v
    obtain ⟨y, hy, hxy⟩ : ∃ y ∈ additions w, x.Later k y := by
      obtain ⟨i, hi, rfl⟩ := List.mem_iff_getElem.mp hx
      exact ⟨_, List.getElem_mem (hlater.length_eq ▸ hi), hlater.get hi _⟩
    have hslot := slot_extractPhases v hx
    have hslot' := slot_extractPhases w hy
    rw [hxy.phase] at hslot'
    by_cases happlies : x.applies
    · obtain ⟨hpresent, hs, he⟩ := hslot.1 happlies
      obtain ⟨hpresent', hs', he'⟩ := hslot'.1 (hxy.applies.mpr happlies)
      rw [hpresent, hpresent', hs, hs', he, he']
      exact ⟨rfl, fun _ => hxy.ends happlies⟩
    · rw [hslot.2 happlies, hslot'.2 (hxy.applies.not.mpr happlies)]
      exact ⟨rfl, fun hno => by cases hno⟩

end Shifted

section Analysis
variable [Platform] (obs : List Observation) (k : UInt64) (rid : RequestId)

/-- The analysis of the shifted evidence: the same phases exist and last as long, and the
decomposition has the same figures. -/
structure ShiftInvariant : Prop where
  phases : ∀ p, ((reconstructTrace (obs.map (Observation.shift k)) rid).getPhase p).present =
    ((reconstructTrace obs rid).getPhase p).present
  durations : ∀ p, ((reconstructTrace obs rid).getPhase p).present = true →
    ((reconstructTrace (obs.map (Observation.shift k)) rid).getPhase p).duration =
      ((reconstructTrace obs rid).getPhase p).duration
  figures : SameFigures (decomposeLatency (reconstructTrace obs rid))
    (decomposeLatency (reconstructTrace (obs.map (Observation.shift k)) rid))

/-- Where no timestamp that dates an observation is zero and the batch wait starts with a
time, shifting the clock does not change the analysis. -/
theorem shiftInvariant_of_dated (hfits : ∀ o ∈ obs, o.Fits k) (hdated : ∀ o ∈ obs, o.DatedApart)
    (hbatch : BatchWaitDated obs) : ShiftInvariant obs k rid := by
  have hperm := sorter.perm traceLt obs
  have hascending := sorter.ascending obs strictWeak_traceLt
  have hshift : Shiftable k (sorter.sort traceLt obs) := fun o ho =>
    ⟨hfits o (hperm.mem_iff.mp ho), hdated o (hperm.mem_iff.mp ho)⟩
  have hperm' := (sorter.perm traceLt (obs.map (Observation.shift k))).trans
    (hperm.symm.map (Observation.shift k))
  have hmoved : Moved k.toNat (reconstructTrace obs rid).phases
      (reconstructTrace (obs.map (Observation.shift k)) rid).phases := by
    rw [reconstructTrace_phases, reconstructTrace_phases]
    exact moved_extractPhases hshift hperm hascending hbatch hperm'
      (sorter.ascending _ strictWeak_traceLt)
  have hown : ∀ l, OwnPhases (reconstructTrace l rid).phases := fun l => by
    rw [reconstructTrace_phases]
    exact ownPhases_extractPhases _
  constructor
  · intro p
    rw [RequestTrace.getPhase, (hmoved p).1, RequestTrace.getPhase]
  · intro p hp
    rw [RequestTrace.getPhase, hmoved.duration_eq hp, RequestTrace.getPhase]
  · exact sameFigures_of_moved hmoved (hown _) (hown _)

end Analysis

/-- Both clocks, an observation without a timestamp, and a batch. -/
theorem shiftInvariant_of_dated_batch :
    let obs : List Observation :=
      [{ type := .request, hasRecvTs := true, recvTs := 10 },
        { type := .speculationStart }, { type := .batchForm, hasObsTs := true, obsTs := 12 },
        { type := .dispatch, hasRecvTs := true, recvTs := 15, hasObsTs := true, obsTs := 0 },
        { type := .prefillStart, hasRecvTs := true, recvTs := 19 },
        { type := .completion, hasRecvTs := true, recvTs := 30 }]
    ((∀ o ∈ obs, o.Fits 1000) ∧ (∀ o ∈ obs, o.DatedApart) ∧ BatchWaitDated obs) ∧
      @ShiftInvariant Platform.machine obs 1000 {} := by
  intro obs
  have h : (∀ o ∈ obs, o.Fits 1000) ∧ (∀ o ∈ obs, o.DatedApart) ∧ BatchWaitDated obs := by
    decide
  exact ⟨h, @shiftInvariant_of_dated Platform.machine obs 1000 {} h.1 h.2.1 h.2.2⟩

/-- A request at the time zero of its clock. -/
def requestAtZero : Observation := { type := .request, hasRecvTs := true, recvTs := 0 }

/-- A time of zero counts as missing, so a clock that starts at zero may not be shifted. -/
theorem not_shiftInvariant_requestAtZero : (∀ o ∈ [requestAtZero], o.Fits 1) ∧
    ¬ @ShiftInvariant Platform.machine [requestAtZero] 1 {} := by
  let _ : Platform := Platform.machine
  refine ⟨by decide, fun h => ?_⟩
  have hsort : ∀ o : Observation, sorter.sort traceLt [o] = [o] := fun o =>
    sort_traceLt_eq_self (List.nodup_singleton _) (List.pairwise_singleton _ _)
  have harrival := h.phases .arrival
  rw [List.map_singleton, RequestTrace.getPhase, RequestTrace.getPhase, reconstructTrace,
    reconstructTrace, hsort, hsort] at harrival
  have hzero : (extractPhases [requestAtZero] .arrival).present = false := by decide
  have hone : (extractPhases [requestAtZero.shift 1] .arrival).present = true := by decide
  exact Bool.false_ne_true (hzero.symm.trans (harrival.symm.trans hone))

end ServingObservatory
