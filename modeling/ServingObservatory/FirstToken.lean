import ServingObservatory.Attribution
import ServingObservatory.RequestBounds

/-!
# The first token and later steps

The first token ends where the last decoding step ends, so a later step moves it. It
stays where it was only when no later step ends, or when an early step without a time
keeps the phase away altogether.
-/
namespace ServingObservatory
open Std Sorting

/-- The first token of one trace is that of another. -/
structure SameFirstToken [Platform] (t t' : RequestTrace) : Prop where
  present : (t'.getPhase .firstToken).present = (t.getPhase .firstToken).present
  start : (t'.getPhase .firstToken).start = (t.getPhase .firstToken).start
  «end» : (t'.getPhase .firstToken).end = (t.getPhase .firstToken).end
  latency : (attributeResources t').firstTokenLatency = (attributeResources t).firstTokenLatency

/-- Steps of decoding that come after all other evidence. -/
structure LaterSteps (obs extra : List Observation) : Prop where
  steps : ∀ x ∈ extra, x.type = .decodeStepStart ∨ x.type = .decodeStepEnd
  later : ∀ x ∈ extra, ∀ o ∈ obs, (obsTime o).ts < (obsTime x).ts

/-- The first token as an addition, from the times of the evidence. -/
def firstTokenOf (obs : List Observation) : Addition :=
  ⟨.firstToken, earliest obs .decodeStepStart ≠ 0 ∧ latest obs .decodeStepEnd ≠ 0,
    firstTokenStart (latest obs .prefillEnd) (earliest obs .decodeStepStart),
    firstTokenEnd (latest obs .prefillEnd) (earliest obs .decodeStepStart)
      (latest obs .decodeStepEnd)⟩

section Reconstruction
variable [Platform] (obs : List Observation) (rid : RequestId)

/-- What the slot of the first token holds. -/
theorem firstToken_reconstructTrace :
    ((firstTokenOf obs).applies →
      ((reconstructTrace obs rid).getPhase .firstToken).present = true ∧
      ((reconstructTrace obs rid).getPhase .firstToken).start = (firstTokenOf obs).start ∧
      ((reconstructTrace obs rid).getPhase .firstToken).end = (firstTokenOf obs).end) ∧
      (¬ (firstTokenOf obs).applies →
        (reconstructTrace obs rid).getPhase .firstToken = {}) := by
  have hperm := sorter.perm traceLt obs
  have hsorted := sorter.ascending obs strictWeak_traceLt
  have hmem : firstTokenOf obs ∈ additions (sorter.sort traceLt obs) := by
    simp [additions, firstTokenOf, ts_firstObs hperm hsorted, ts_lastObs hperm hsorted]
  have hslot := slot_extractPhases (sorter.sort traceLt obs) hmem
  rw [show (firstTokenOf obs).phase = .firstToken from rfl] at hslot
  simpa only [RequestTrace.getPhase, reconstructTrace_phases] using hslot

variable {obs rid} {extra : List Observation}

/-- The same phase has the same duration. -/
theorem sameFirstToken_iff_slot {t t' : RequestTrace} : SameFirstToken t t' ↔
    (t'.getPhase .firstToken).present = (t.getPhase .firstToken).present ∧
      (t'.getPhase .firstToken).start = (t.getPhase .firstToken).start ∧
      (t'.getPhase .firstToken).end = (t.getPhase .firstToken).end := by
  refine ⟨fun h => ⟨h.present, h.start, h.end⟩, fun ⟨hpresent, hstart, hend⟩ => ?_⟩
  refine ⟨hpresent, hstart, hend, ?_⟩
  change dur t' .firstToken = dur t .firstToken
  simp only [dur, PhaseInterval.duration, hpresent, hstart, hend]

/-- Equal times make equal first tokens. -/
theorem sameFirstToken_of_eq {obs' : List Observation} (h : firstTokenOf obs' = firstTokenOf obs) :
    SameFirstToken (reconstructTrace obs rid) (reconstructTrace obs' rid) := by
  obtain ⟨hyes, hno⟩ := firstToken_reconstructTrace obs rid
  obtain ⟨hyes', hno'⟩ := firstToken_reconstructTrace obs' rid
  rw [h] at hyes' hno'
  rw [sameFirstToken_iff_slot]
  by_cases happ : (firstTokenOf obs).applies
  · obtain ⟨hp, hs, he⟩ := hyes happ
    obtain ⟨hp', hs', he'⟩ := hyes' happ
    exact ⟨hp'.trans hp.symm, hs'.trans hs.symm, he'.trans he.symm⟩
  · rw [hno happ, hno' happ]
    exact ⟨rfl, rfl, rfl⟩

omit [Platform] in
/-- Other times than the end of decoding do not see the later steps. -/
theorem LaterSteps.times (h : LaterSteps obs extra) (hstart : timesOf obs .decodeStepStart ≠ []) :
    earliest (obs ++ extra) .decodeStepStart = earliest obs .decodeStepStart ∧
      latest (obs ++ extra) .prefillEnd = latest obs .prefillEnd := by
  refine ⟨earliest_append hstart h.later, latest_append_of_nil ?_⟩
  refine timesOf_eq_nil_iff.mpr fun x hx htype => ?_
  rcases h.steps x hx with heq | heq <;> simp [heq] at htype

omit [Platform] in
/-- A later end of a step moves the end of the first token. -/
theorem LaterSteps.end_lt (h : LaterSteps obs extra) (hstart : timesOf obs .decodeStepStart ≠ [])
    (hend : timesOf obs .decodeStepEnd ≠ []) {x : Observation} (hx : x ∈ extra)
    (htype : x.type = .decodeStepEnd) :
    (firstTokenOf obs).end < (firstTokenOf (obs ++ extra)).end := by
  have hlast : ∀ s ∈ obs.map fun o => (obsTime o).ts,
      s < latest (obs ++ extra) .decodeStepEnd := by
    intro s hs
    obtain ⟨o, ho, rfl⟩ := List.mem_map.mp hs
    have hmem : (obsTime x).ts ∈ timesOf (obs ++ extra) .decodeStepEnd :=
      mem_timesOf.mpr ⟨x, by simp [hx], htype, rfl⟩
    exact UInt64.lt_of_lt_of_le (h.later x hx o ho)
      ((latest_spec (List.ne_nil_of_mem hmem)).2 _ hmem)
  have hsub : ∀ {t : ObsType} {s : UInt64}, s ∈ timesOf obs t →
      s < latest (obs ++ extra) .decodeStepEnd := fun hs => by
    obtain ⟨o, ho, -, rfl⟩ := mem_timesOf.mp hs
    exact hlast _ (List.mem_map.mpr ⟨o, ho, rfl⟩)
  have hfirst := hsub (earliest_spec hstart).1
  have hfinal := hsub (latest_spec hend).1
  have hprefill : latest obs .prefillEnd < latest (obs ++ extra) .decodeStepEnd := by
    by_cases hnil : timesOf obs .prefillEnd = []
    · rw [show latest obs .prefillEnd = 0 by rw [latest, hnil]; rfl]
      exact UInt64.lt_of_le_of_lt UInt64.zero_le hfirst
    · exact hsub (latest_spec hnil).1
  obtain ⟨hstartEq, hprefillEq⟩ := h.times hstart
  simp only [firstTokenOf, firstTokenEnd, firstTokenStart, hstartEq, hprefillEq,
    UInt64.lt_iff_toNat_lt] at hfirst hfinal hprefill ⊢
  split_ifs <;> omega

/-- The first token does not depend on later steps exactly when none of them ends, or an
earlier step has no time. -/
theorem sameFirstToken_iff (obs extra : List Observation) (rid : RequestId)
    (hstart : ∃ o ∈ obs, o.type = .decodeStepStart ∧ (obsTime o).ts ≠ 0)
    (hend : ∃ o ∈ obs, o.type = .decodeStepEnd ∧ (obsTime o).ts ≠ 0)
    (hsteps : ∀ x ∈ extra, x.type = .decodeStepStart ∨ x.type = .decodeStepEnd)
    (hlater : ∀ x ∈ extra, ∀ o ∈ obs, (obsTime o).ts < (obsTime x).ts) :
    SameFirstToken (reconstructTrace obs rid) (reconstructTrace (obs ++ extra) rid) ↔
      (∀ x ∈ extra, x.type ≠ .decodeStepEnd) ∨
        ∃ o ∈ obs, o.type = .decodeStepStart ∧ (obsTime o).ts = 0 := by
  have h : LaterSteps obs extra := ⟨hsteps, hlater⟩
  obtain ⟨o, ho, hotype, hots⟩ := hstart
  obtain ⟨e, he, hetype, hets⟩ := hend
  have hneStart : timesOf obs .decodeStepStart ≠ [] :=
    List.ne_nil_of_mem (mem_timesOf.mpr ⟨o, ho, hotype, rfl⟩)
  have hneEnd : timesOf obs .decodeStepEnd ≠ [] :=
    List.ne_nil_of_mem (mem_timesOf.mpr ⟨e, he, hetype, rfl⟩)
  obtain ⟨hearliest, hprefill⟩ := h.times hneStart
  rw [← earliest_eq_zero_iff hneStart]
  constructor
  · intro hsame
    by_contra hno
    push Not at hno
    obtain ⟨⟨x, hx, htype⟩, hzero⟩ := hno
    have happ : (firstTokenOf obs).applies := ⟨hzero, latest_ne_zero he hetype hets⟩
    have happ' : (firstTokenOf (obs ++ extra)).applies :=
      ⟨hearliest ▸ hzero, latest_ne_zero (by simp [he]) hetype hets⟩
    have hlt := h.end_lt hneStart hneEnd hx htype
    have hends := hsame.end
    rw [((firstToken_reconstructTrace _ rid).1 happ).2.2,
      ((firstToken_reconstructTrace _ rid).1 happ').2.2] at hends
    exact absurd (hends ▸ hlt) (UInt64.lt_irrefl _)
  · rintro (hnone | hzero)
    · have hdecode : latest (obs ++ extra) .decodeStepEnd = latest obs .decodeStepEnd :=
        latest_append_of_nil (timesOf_eq_nil_iff.mpr hnone)
      refine sameFirstToken_of_eq ?_
      simp only [firstTokenOf, hearliest, hprefill, hdecode]
    · rw [sameFirstToken_iff_slot,
        (firstToken_reconstructTrace obs rid).2 fun happ => happ.1 hzero,
        (firstToken_reconstructTrace (obs ++ extra) rid).2 fun happ => happ.1 (hearliest ▸ hzero)]
      exact ⟨rfl, rfl, rfl⟩

end Reconstruction

/-- Decoding begins, and the first of its steps ends. -/
def firstStep : List Observation :=
  [{ type := .decodeStepStart, hasRecvTs := true, recvTs := 10 },
    { type := .decodeStepEnd, hasRecvTs := true, recvTs := 20 }]

/-- The end of a second step. -/
def secondStep : List Observation := [{ type := .decodeStepEnd, hasRecvTs := true, recvTs := 50 }]

theorem firstStep_timed :
    (∃ o ∈ firstStep, o.type = .decodeStepStart ∧ (obsTime o).ts ≠ 0) ∧
      (∃ o ∈ firstStep, o.type = .decodeStepEnd ∧ (obsTime o).ts ≠ 0) := by
  simp [firstStep, obsTime]

/-- A second step that only starts leaves the first token where it was. -/
theorem sameFirstToken_secondStart :
    let start : Observation := { type := .decodeStepStart, hasRecvTs := true, recvTs := 30 }
    @SameFirstToken Platform.machine (@reconstructTrace Platform.machine firstStep {})
      (@reconstructTrace Platform.machine (firstStep ++ [start]) {}) := by
  intro start
  refine (@sameFirstToken_iff Platform.machine firstStep [start] {} firstStep_timed.1
    firstStep_timed.2 ?_ ?_).mpr (.inl ?_) <;> simp [start, firstStep, obsTime]

/-- A second step that ends takes the end of the first token with it. -/
theorem not_sameFirstToken_secondStep :
    ¬ @SameFirstToken Platform.machine (@reconstructTrace Platform.machine firstStep {})
      (@reconstructTrace Platform.machine (firstStep ++ secondStep) {}) := by
  intro h
  have hends := @SameFirstToken.end Platform.machine _ _ h
  have happ : (firstTokenOf firstStep).applies := And.intro (by decide) (by decide)
  have happ' : (firstTokenOf (firstStep ++ secondStep)).applies :=
    And.intro (by decide) (by decide)
  rw [((@firstToken_reconstructTrace Platform.machine _ {}).1 happ).2.2,
    ((@firstToken_reconstructTrace Platform.machine _ {}).1 happ').2.2] at hends
  exact absurd hends (by decide)

end ServingObservatory
