import ServingObservatory.EvidenceTimes
import ServingObservatory.ExclusiveLatency
import ServingObservatory.LiveIndex

/-!
# When the decomposition stays within the request

Reconstruction adds each phase from its own evidence, one slot after the other, and the
total from arrival and completion. Whether the phases lie within the total is a question
about the times of the evidence, and then the covered time and the gap add up to it.
-/
namespace ServingObservatory
open Std Sorting

/-- The phases lie within the total, and the sums of the decomposition fit it. -/
structure BoundedDecomposition (t : RequestTrace) (b : LatencyBreakdown) : Prop where
  phases : ∀ p, p ≠ .total → (t.getPhase p).present = true →
    (t.getPhase .total).start ≤ (t.getPhase p).start ∧ (t.getPhase p).start ≤ (t.getPhase p).end ∧
      (t.getPhase p).end ≤ (t.getPhase .total).end
  sum : (b.components.map fun c => c.exclusiveNs.toNat).sum = b.coveredNs.toNat
  covered : b.coveredNs ≤ b.totalNs
  gap : b.coveredNs.toNat + b.gapNs.toNat = b.totalNs.toNat

/-- A phase that is added under a condition, with its ends. -/
structure Addition where
  phase : Phase
  applies : Prop
  start : UInt64
  «end» : UInt64

/-- The table after an addition. -/
def Adds (t : PhaseTable) (x : Addition) (t' : PhaseTable) : Prop :=
  (¬ x.applies ∧ t' = t) ∨
    (x.applies ∧ ∃ prov source detail, t' = t.addPhase x.phase x.start x.end prov source detail)

/-- The table after a list of additions. -/
inductive AddsAll : PhaseTable → List Addition → PhaseTable → Prop
  | nil (t : PhaseTable) : AddsAll t [] t
  | cons {t t' t'' : PhaseTable} {x : Addition} {l : List Addition} :
    Adds t x t' → AddsAll t' l t'' → AddsAll t (x :: l) t''

/-- The phases lie in a window, each from its start to its end. -/
def Within (t : PhaseTable) (first last : UInt64) : Prop :=
  ∀ p, p ≠ .total → (t p).present = true →
    first ≤ (t p).start ∧ (t p).start ≤ (t p).end ∧ (t p).end ≤ last

section Additions
variable {t t' : PhaseTable} {x : Addition}

theorem Adds.skip (h : ¬ x.applies) : Adds t x t := .inl ⟨h, rfl⟩

theorem Adds.fill (h : x.applies) {s e : UInt64} (hs : s = x.start) (he : e = x.end)
    {prov : Provenance} {source detail : Str} :
    Adds t x (t.addPhase x.phase s e prov source detail) := by
  subst hs he
  exact .inr ⟨h, prov, source, detail, rfl⟩

theorem Adds.other (h : Adds t x t') {q : Phase} (hq : q ≠ x.phase) : t' q = t q := by
  rcases h with ⟨-, rfl⟩ | ⟨-, prov, source, detail, rfl⟩
  · rfl
  · simp [PhaseTable.addPhase, hq]

theorem Adds.ownPhases (h : Adds t x t') (hown : OwnPhases t) : OwnPhases t' := by
  rcases h with ⟨-, rfl⟩ | ⟨-, prov, source, detail, rfl⟩
  · exact hown
  · exact hown.addPhase _ _ _ _ _ _

/-- An addition to a free slot narrows the window exactly by its own ends. -/
theorem Adds.within_iff (h : Adds t x t') (hphase : x.phase ≠ .total)
    (hfree : (t x.phase).present = false) (first last : UInt64) :
    Within t' first last ↔ (x.applies → first ≤ x.start ∧ x.start ≤ x.end ∧ x.end ≤ last) ∧
      Within t first last := by
  rcases h with ⟨hno, rfl⟩ | ⟨hyes, prov, source, detail, rfl⟩
  · simp [hno]
  · constructor
    · intro hw
      refine ⟨fun _ => ?_, fun p hp hpresent => ?_⟩
      · simpa [PhaseTable.addPhase] using hw x.phase hphase (by simp [PhaseTable.addPhase])
      · have hne : p ≠ x.phase := by
          rintro rfl
          rw [hfree] at hpresent
          cases hpresent
        have hslot := hw p hp
        rw [PhaseTable.addPhase, Function.update_of_ne hne] at hslot
        exact hslot hpresent
    · rintro ⟨hx, hw⟩ p hp hpresent
      by_cases hne : p = x.phase
      · subst hne
        simpa [PhaseTable.addPhase] using hx hyes
      · rw [PhaseTable.addPhase, Function.update_of_ne hne] at hpresent ⊢
        exact hw p hp hpresent

theorem AddsAll.ownPhases {l : List Addition} (h : AddsAll t l t') (hown : OwnPhases t) :
    OwnPhases t' := by
  induction h with
  | nil => exact hown
  | cons hadd _ ih => exact ih (hadd.ownPhases hown)

theorem AddsAll.other {l : List Addition} (h : AddsAll t l t') {q : Phase}
    (hq : ∀ x ∈ l, q ≠ x.phase) : t' q = t q := by
  induction h with
  | nil => rfl
  | cons hadd _ ih =>
    rw [ih fun x hx => hq x (by simp [hx]), hadd.other (hq _ (by simp))]

theorem Adds.slot (h : Adds t x t') :
    (x.applies → (t' x.phase).present = true ∧ (t' x.phase).start = x.start ∧
      (t' x.phase).end = x.end) ∧ (¬ x.applies → t' x.phase = t x.phase) := by
  rcases h with ⟨hno, rfl⟩ | ⟨hyes, prov, source, detail, rfl⟩
  · exact ⟨fun hyes => absurd hyes hno, fun _ => rfl⟩
  · exact ⟨fun _ => by simp [PhaseTable.addPhase], fun hno => absurd hyes hno⟩

/-- What the slot of one of several additions to distinct slots holds. -/
theorem AddsAll.slot {l : List Addition} (h : AddsAll t l t')
    (hnodup : (l.map Addition.phase).Nodup) (hx : x ∈ l) :
    (x.applies → (t' x.phase).present = true ∧ (t' x.phase).start = x.start ∧
      (t' x.phase).end = x.end) ∧ (¬ x.applies → t' x.phase = t x.phase) := by
  induction h with
  | nil => cases hx
  | @cons t t₁ t₂ y l hadd hrest ih =>
    rw [List.map_cons, List.nodup_cons] at hnodup
    rcases List.mem_cons.mp hx with rfl | htail
    · have hkeep : t₂ x.phase = t₁ x.phase := hrest.other fun z hz heq =>
        hnodup.1 (List.mem_map.mpr ⟨z, hz, heq.symm⟩)
      rw [hkeep]
      exact hadd.slot
    · have hne : x.phase ≠ y.phase := fun heq =>
        hnodup.1 (List.mem_map.mpr ⟨x, htail, heq⟩)
      rw [← hadd.other hne]
      exact ih hnodup.2 htail

/-- Additions to distinct free slots. -/
theorem AddsAll.within_iff {l : List Addition} (h : AddsAll t l t')
    (hnodup : (l.map Addition.phase).Nodup)
    (hfree : ∀ x ∈ l, x.phase ≠ .total ∧ (t x.phase).present = false) (first last : UInt64) :
    Within t' first last ↔
      (∀ x ∈ l, x.applies → first ≤ x.start ∧ x.start ≤ x.end ∧ x.end ≤ last) ∧
        Within t first last := by
  induction h with
  | nil => simp
  | @cons t t₁ t₂ x l hadd _ ih =>
    rw [List.map_cons, List.nodup_cons] at hnodup
    obtain ⟨hphase, hslot⟩ := hfree x (by simp)
    have hrest : ∀ y ∈ l, y.phase ≠ .total ∧ (t₁ y.phase).present = false := by
      intro y hy
      have hne : y.phase ≠ x.phase := fun heq =>
        hnodup.1 (List.mem_map.mpr ⟨y, hy, heq⟩)
      rw [hadd.other hne]
      exact hfree y (by simp [hy])
    rw [ih hnodup.2 hrest, hadd.within_iff hphase hslot, List.forall_mem_cons]
    tauto

end Additions

section Extraction
variable (t : PhaseTable)

theorem tdom_some (o : Observation) : tdom (some o) = obsTime o := rfl

theorem adds_arrival (a : TimedObs) (req : Option Observation) :
    Adds t ⟨.arrival, a.ts ≠ 0, a.ts, a.ts⟩ (t.addArrival a req) := by
  unfold PhaseTable.addArrival
  by_cases h : a.ts ≠ 0
  · rw [if_pos h]
    cases req with
    | none => exact .fill h rfl rfl
    | some r => exact .fill h rfl rfl
  · rw [if_neg h]
    exact .skip h

theorem adds_moment (p : Phase) (o : Option Observation) (detail : Str) :
    Adds t ⟨p, (tdom o).ts ≠ 0, (tdom o).ts, (tdom o).ts⟩ (t.addMoment p o detail) := by
  unfold PhaseTable.addMoment
  cases o with
  | none => exact .skip (by simp [tdom])
  | some x =>
    by_cases h : (obsTime x).ts ≠ 0
    · simp only [if_pos h]
      exact .fill h rfl rfl
    · simp only [if_neg h]
      exact .skip h

theorem adds_span (p : Phase) (first last : Option Observation) (detail : Str) :
    Adds t ⟨p, (tdom first).ts ≠ 0 ∧ (tdom last).ts ≠ 0, (tdom first).ts, (tdom last).ts⟩
      (t.addSpan p first last detail) := by
  unfold PhaseTable.addSpan
  cases first with
  | none => exact .skip (by simp [tdom])
  | some x =>
    cases last with
    | none => exact .skip (by simp [tdom])
    | some y =>
      by_cases h : (obsTime x).ts ≠ 0 ∧ (obsTime y).ts ≠ 0
      · simp only [if_pos h]
        exact .fill h rfl rfl
      · simp only [if_neg h]
        exact .skip h

theorem adds_batchWait (bf bs disp : Option Observation) :
    Adds t ⟨.batchWait, (bf.isSome ∨ bs.isSome) ∧ (tdom disp).ts ≠ 0, (tdom (bf <|> bs)).ts,
      (tdom disp).ts⟩ (t.addBatchWait bf bs disp) := by
  unfold PhaseTable.addBatchWait
  have hsome : (bf.isSome = true ∨ bs.isSome = true) ↔ (bf <|> bs).isSome = true := by
    cases bf <;> simp
  rw [hsome]
  cases bf <|> bs with
  | none => exact .skip (by simp)
  | some x =>
    cases disp with
    | none => exact .skip (by simp [tdom])
    | some d =>
      by_cases h : (obsTime d).ts ≠ 0
      · simp only [if_pos h]
        exact .fill (by exact ⟨rfl, h⟩) rfl rfl
      · simp only [if_neg h]
        exact .skip fun hno => h hno.2

/-- When execution starts: with prefill, else with decoding. -/
def executionStart (pfS dsStart : UInt64) : UInt64 := if pfS = 0 then dsStart else pfS

theorem adds_dispatch (disp pfS dsStart : Option Observation) :
    Adds t ⟨.dispatch, (tdom disp).ts ≠ 0, (tdom disp).ts,
      if executionStart (tdom pfS).ts (tdom dsStart).ts < (tdom disp).ts then (tdom disp).ts
      else executionStart (tdom pfS).ts (tdom dsStart).ts⟩ (t.addDispatch disp pfS dsStart) := by
  unfold PhaseTable.addDispatch executionStart
  cases disp with
  | none => exact .skip (by simp [tdom])
  | some d =>
    by_cases h : (obsTime d).ts ≠ 0
    · simp only [if_pos h]
      refine .fill h rfl ?_
      simp only [apply_ite TimedObs.ts, tdom_some]
      split_ifs <;> rfl
    · simp only [if_neg h]
      exact .skip h

/-- The ends of the first token: from the end of prefill, else the start of decoding, to
the end of decoding, else its start. -/
def firstTokenStart (pe dss : UInt64) : UInt64 := if pe ≠ 0 then pe else dss

def firstTokenEnd (pe dss dse : UInt64) : UInt64 :=
  if dse < firstTokenStart pe dss then dss else dse

theorem adds_tokens (pe : TimedObs) (dsStart dsEnd : Option Observation) (steps : UInt64) :
    ∃ t', Adds t ⟨.firstToken, (tdom dsStart).ts ≠ 0 ∧ (tdom dsEnd).ts ≠ 0,
        firstTokenStart pe.ts (tdom dsStart).ts,
        firstTokenEnd pe.ts (tdom dsStart).ts (tdom dsEnd).ts⟩ t' ∧
      Adds t' ⟨.decode, (tdom dsStart).ts ≠ 0 ∧ (tdom dsEnd).ts ≠ 0, (tdom dsStart).ts,
        (tdom dsEnd).ts⟩ (t.addTokens pe dsStart dsEnd steps) := by
  unfold PhaseTable.addTokens
  cases dsStart with
  | none => exact ⟨t, .skip (by simp [tdom]), .skip (by simp [tdom])⟩
  | some x =>
    cases dsEnd with
    | none => exact ⟨t, .skip (by simp [tdom]), .skip (by simp [tdom])⟩
    | some y =>
      by_cases h : (obsTime x).ts ≠ 0 ∧ (obsTime y).ts ≠ 0
      · simp only [if_pos h]
        refine ⟨_, .fill h ?_ ?_, .fill h rfl rfl⟩
        · simp only [firstTokenStart, apply_ite TimedObs.ts, tdom_some]
        · simp only [firstTokenEnd, firstTokenStart, apply_ite TimedObs.ts, tdom_some]
          split_ifs <;> rfl
      · simp only [if_neg h]
        exact ⟨t, .skip h, .skip h⟩

end Extraction

section Window
variable (v : List Observation)

/-- The additions of reconstruction, in order. -/
def additions : List Addition :=
  let first := fun t => (tdom (firstObs v t)).ts
  let last := fun t => (tdom (lastObs v t)).ts
  [⟨.arrival, (arrivalTime v).ts ≠ 0, (arrivalTime v).ts, (arrivalTime v).ts⟩,
    ⟨.admission, first .admission ≠ 0, first .admission, first .admission⟩,
    ⟨.queue, first .queueEnter ≠ 0 ∧ last .queueLeave ≠ 0, first .queueEnter, last .queueLeave⟩,
    ⟨.batchWait, ((firstObs v .batchForm).isSome ∨ (firstObs v .batchSeal).isSome) ∧
      first .dispatch ≠ 0, (tdom (firstObs v .batchForm <|> firstObs v .batchSeal)).ts,
      first .dispatch⟩,
    ⟨.dispatch, first .dispatch ≠ 0, first .dispatch,
      if executionStart (first .prefillStart) (first .decodeStepStart) < first .dispatch then
        first .dispatch
      else executionStart (first .prefillStart) (first .decodeStepStart)⟩,
    ⟨.transfer, first .transferStart ≠ 0 ∧ last .transferEnd ≠ 0, first .transferStart,
      last .transferEnd⟩,
    ⟨.prefill, first .prefillStart ≠ 0 ∧ last .prefillEnd ≠ 0, first .prefillStart,
      last .prefillEnd⟩,
    ⟨.firstToken, first .decodeStepStart ≠ 0 ∧ last .decodeStepEnd ≠ 0,
      firstTokenStart (last .prefillEnd) (first .decodeStepStart),
      firstTokenEnd (last .prefillEnd) (first .decodeStepStart) (last .decodeStepEnd)⟩,
    ⟨.decode, first .decodeStepStart ≠ 0 ∧ last .decodeStepEnd ≠ 0, first .decodeStepStart,
      last .decodeStepEnd⟩,
    ⟨.speculation, first .speculationStart ≠ 0 ∧ last .speculationVerify ≠ 0,
      first .speculationStart, last .speculationVerify⟩,
    ⟨.retry, first .retry ≠ 0, first .retry, first .retry⟩,
    ⟨.recovery, first .recovery ≠ 0, first .recovery, first .recovery⟩,
    ⟨.completion, last .completion ≠ 0, last .completion, last .completion⟩]

/-- Reconstruction makes the additions and then adds the total. -/
theorem exists_addsAll : ∃ t, AddsAll .empty (additions v) t ∧
    extractPhases v = t.addTotal (arrivalTime v) (completionTime v) v := by
  obtain ⟨t', hfirst, hdecode⟩ := adds_tokens
    (PhaseTable.empty
      |>.addArrival (arrivalTime v) (firstObs v .request)
      |>.addMoment .admission (firstObs v .admission) (lit "admission")
      |>.addSpan .queue (firstObs v .queueEnter) (lastObs v .queueLeave)
        (lit "queue residence (" ++ decimal (countObs v .queueEnter).toNat ++ lit " enter)")
      |>.addBatchWait (firstObs v .batchForm) (firstObs v .batchSeal) (firstObs v .dispatch)
      |>.addDispatch (firstObs v .dispatch) (firstObs v .prefillStart)
        (firstObs v .decodeStepStart)
      |>.addSpan .transfer (firstObs v .transferStart) (lastObs v .transferEnd) (lit "transfer")
      |>.addSpan .prefill (firstObs v .prefillStart) (lastObs v .prefillEnd) (lit "prefill"))
    (tdom (lastObs v .prefillEnd)) (firstObs v .decodeStepStart) (lastObs v .decodeStepEnd)
    (countObs v .decodeStepStart)
  refine ⟨_, ?_, rfl⟩
  exact .cons (adds_arrival _ _ _) <| .cons (adds_moment _ _ _ _) <| .cons (adds_span _ _ _ _ _) <|
    .cons (adds_batchWait _ _ _ _) <| .cons (adds_dispatch _ _ _ _) <|
    .cons (adds_span _ _ _ _ _) <| .cons (adds_span _ _ _ _ _) <| .cons hfirst <|
    .cons hdecode <| .cons (adds_span _ _ _ _ _) <| .cons (adds_moment _ _ _ _) <|
    .cons (adds_moment _ _ _ _) <| .cons (adds_moment _ _ _ _) <| .nil _

/-- The end of the total: that of the request, but not before its start. -/
def closingTime : UInt64 :=
  if (arrivalTime v).ts = 0 then 0
  else if (completionTime v).ts < (arrivalTime v).ts then (arrivalTime v).ts
  else (completionTime v).ts

theorem ts_getLast_of_completionTime (hzero : (completionTime v).ts = 0) (hne : v ≠ []) :
    (tdom v.getLast?).ts = 0 := by
  have hnonempty : (!v.isEmpty) = true := by simpa using hne
  simp only [completionTime, hnonempty, and_true] at hzero
  split_ifs at hzero with hc
  · exact hzero
  · exact absurd hzero hc

theorem adds_total (t : PhaseTable) :
    Adds t ⟨.total, (arrivalTime v).ts ≠ 0, (arrivalTime v).ts, closingTime v⟩
      (t.addTotal (arrivalTime v) (completionTime v) v) := by
  unfold PhaseTable.addTotal
  by_cases ha : (arrivalTime v).ts ≠ 0
  · rw [if_pos ha]
    refine .fill ha rfl ?_
    have hpos : 0 < (arrivalTime v).ts := UInt64.pos_iff_ne_zero.mpr ha
    rw [closingTime, if_neg ha]
    by_cases hc : (completionTime v).ts = 0
    · have hv : v.isEmpty = false := by
        cases v with
        | nil => exact absurd rfl ha
        | cons o v => rfl
      have hlast := ts_getLast_of_completionTime v hc (by simpa using hv)
      simp [hc, hv, hlast, hpos]
    · simp only [ne_eq, hc, not_false_eq_true, if_true]
      split_ifs <;> rfl
  · rw [if_neg ha]
    exact .skip ha

/-- The additions, and after them the total. -/
theorem exists_table : ∃ t, AddsAll .empty (additions v) t ∧
    Adds t ⟨.total, (arrivalTime v).ts ≠ 0, (arrivalTime v).ts, closingTime v⟩
      (extractPhases v) := by
  obtain ⟨t, hadds, heq⟩ := exists_addsAll v
  exact ⟨t, hadds, heq ▸ adds_total v t⟩

theorem ownPhases_extractPhases : OwnPhases (extractPhases v) := by
  obtain ⟨t, hadds, htotal⟩ := exists_table v
  exact htotal.ownPhases (hadds.ownPhases ownPhases_empty)

/-- The total runs from the arrival to the closing time, and exists with an arrival. -/
theorem extractPhases_total : (extractPhases v .total).present = ((arrivalTime v).ts != 0) ∧
    (extractPhases v .total).start = (arrivalTime v).ts ∧
    (extractPhases v .total).end = closingTime v := by
  obtain ⟨t, hadds, htotal⟩ := exists_table v
  rcases htotal with ⟨hno, heq⟩ | ⟨hyes, prov, source, detail, heq⟩
  · have hempty : t .total = {} := hadds.other (by simp [additions])
    have hzero : (arrivalTime v).ts = 0 := not_not.mp hno
    rw [heq, hempty, closingTime, hzero]
    exact ⟨rfl, rfl, rfl⟩
  · rw [heq]
    simp only [PhaseTable.addPhase, Function.update_self, and_self, and_true]
    simpa using hyes

theorem nodup_additions : ((additions v).map Addition.phase).Nodup := by
  simp only [additions, List.map_cons, List.map_nil]
  decide

/-- A slot of sorted evidence holds its addition, or is empty where that does not apply. -/
theorem slot_extractPhases {x : Addition} (hx : x ∈ additions v) :
    (x.applies → (extractPhases v x.phase).present = true ∧
      (extractPhases v x.phase).start = x.start ∧ (extractPhases v x.phase).end = x.end) ∧
      (¬ x.applies → extractPhases v x.phase = {}) := by
  obtain ⟨t, hadds, htotal⟩ := exists_table v
  have hne : x.phase ≠ .total := by
    have hall : ∀ y ∈ additions v, y.phase ≠ .total := by simp [additions]
    exact hall x hx
  rw [htotal.other hne]
  exact hadds.slot (nodup_additions v) hx

/-- The phases lie in a window exactly when the ends of every addition do. -/
theorem within_extractPhases_iff (first last : UInt64) : Within (extractPhases v) first last ↔
    ∀ x ∈ additions v, x.applies → first ≤ x.start ∧ x.start ≤ x.end ∧ x.end ≤ last := by
  obtain ⟨t, hadds, htotal⟩ := exists_table v
  have hsame : Within (extractPhases v) first last ↔ Within t first last :=
    forall₂_congr fun p hp => by rw [htotal.other hp]
  have hempty : Within .empty first last := by
    intro p _ hpresent
    cases hpresent
  have hfree : ∀ x ∈ additions v,
      x.phase ≠ .total ∧ (PhaseTable.empty x.phase).present = false := by
    simp [additions, PhaseTable.empty]
  rw [hsame, hadds.within_iff (nodup_additions v) hfree, and_iff_left hempty]

end Window
end ServingObservatory
