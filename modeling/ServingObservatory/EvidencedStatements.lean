import ServingObservatory.AuthoritySpan
import ServingObservatory.Explanation

/-!
# Statements that are called evidenced

A statement about an observation repeats what it says. Two others are inferred: several
boots are called a restart although different workers have different boots, and a
completion with an unknown outcome code is called completed.
-/
namespace ServingObservatory
open Std Sorting

/-- Some worker was restarted: it says so, or it changed its boot. -/
def WorkerRestarted (evidence : List Observation) : Prop :=
  (∃ o ∈ evidence, o.type = .workerRestart) ∨
    ∃ o ∈ evidence, ∃ o' ∈ evidence, o.source = o'.source ∧ o.worker = o'.worker ∧ o.boot ≠ o'.boot

/-- An observation states the outcome: a completion with its code, or without completions a
cancellation or a failure. -/
def StatesOutcome (evidence : List Observation) (x : Outcome) : Prop :=
  (∃ o ∈ evidence, o.type = .completion ∧ o.strField FieldKeys.outcome = x.name) ∨
    (∀ o ∈ evidence, o.type ≠ .completion) ∧
      (x = .cancelled ∧ (∃ o ∈ evidence, o.type = .cancel) ∨
        x = .failed ∧ ∃ o ∈ evidence, o.type = .failure)

/-- The statement repeats what the observation says. -/
def Observation.Says (o : Observation) (s : ExplanationStatement) : Prop :=
  match o.type with
  | .retry => s.claim = lit "a retry occurred (" ++ o.strField FieldKeys.reason ++ lit ")"
  | .failure => s.claim = lit "a failure occurred (" ++ o.strField FieldKeys.reason ++ lit ")"
  | .workerRestart => s.claim = lit "a worker restart occurred"
  | .modelResidency => o.boolField FieldKeys.isWarm true = false ∧
      s.claim = lit "model was cold (not resident)"
  | .adapterResidency => o.boolField FieldKeys.isWarm true = false ∧
      s.claim = lit "adapter was cold (not resident)"
  | _ => False

/-- The evidence entails what the statement says, by its text and its phase. -/
inductive Entailed (evidence : List Observation) (s : ExplanationStatement) : Prop
  | restart (n : ℕ) (claim : s.claim = lit "request spans " ++ decimal n ++
      lit " worker boots (worker restart/failover)") (phase : s.phase = lit "recovery")
      (evidenced : WorkerRestarted evidence)
  | epochs (epochs : Str) (claim : s.claim =
      lit "request spans multiple coordinator epochs (epoch " ++ epochs ++ lit ")")
      (phase : s.phase = lit "total")
      (evidenced : ∃ o ∈ evidence, ∃ o' ∈ evidence, o.epoch ≠ o'.epoch)
  | event (o : Observation) (ho : o ∈ evidence) (stated : o.Says s)
  | outcome (x : Outcome) (claim : s.claim = lit "terminal outcome " ++ x.name)
      (evidenced : StatesOutcome evidence x)

/-- Every statement that is called directly evidenced is entailed by the evidence. -/
def DirectlyEvidenced (t : RequestTrace) (e : Explanation) : Prop :=
  ∀ s ∈ e.statements, s.cls = .directlyEvidenced → Entailed t.evidence s

section Outcomes

theorem Outcome.fromCode_name (x : Outcome) : fromCode x.name = x := by cases x <;> decide

theorem Outcome.name_ite {code : Str} {x y : Outcome} (hy : y ≠ .unknown → code = y.name) :
    (if code = x.name then x else y) ≠ .unknown →
      code = (if code = x.name then x else y).name := by
  split
  · rename_i hx
    exact fun _ => hx
  · exact hy

/-- A known outcome comes from its own code. -/
theorem Outcome.name_of_fromCode {code : Str} : fromCode code ≠ .unknown →
    code = (fromCode code).name := by
  unfold fromCode
  refine name_ite (x := .completed) ?_
  refine name_ite (x := .failed) ?_
  refine name_ite (x := .cancelled) ?_
  refine name_ite (x := .timedOut) ?_
  refine name_ite (x := .preempted) ?_
  refine name_ite (x := .abandoned) ?_
  refine name_ite (x := .retried) ?_
  refine name_ite (x := .partly) ?_
  exact fun h => absurd rfl h

theorem Outcome.name_inj {x y : Outcome} (h : x.name = y.name) : x = y := by
  rw [← fromCode_name x, h, fromCode_name]

end Outcomes

section Statements
variable [Platform] (t : RequestTrace)

theorem cls_phaseStatements {total : F64} {c : LatencyComponent} {s : ExplanationStatement}
    (h : s ∈ phaseStatements total c) : s.cls ≠ .directlyEvidenced := by
  unfold phaseStatements at h
  split_ifs at h
  · cases h
  · exact List.mem_singleton.mp h ▸ ExplanationClass.noConfusion
  · exact List.mem_singleton.mp h ▸ ExplanationClass.noConfusion

theorem cls_reuseStatements {a : ResourceAttribution} {s : ExplanationStatement}
    (h : s ∈ reuseStatements a) : s.cls ≠ .directlyEvidenced := by
  simp only [reuseStatements] at h
  split_ifs at h
  · exact List.mem_singleton.mp h ▸ ExplanationClass.noConfusion
  · cases h
  · cases h

theorem cls_queueStatements {total : F64} {a : ResourceAttribution} {s : ExplanationStatement}
    (h : s ∈ queueStatements total a) : s.cls ≠ .directlyEvidenced := by
  unfold queueStatements at h
  split_ifs at h
  · exact List.mem_singleton.mp h ▸ ExplanationClass.noConfusion
  · cases h

theorem cls_gapStatements {total : F64} {b : LatencyBreakdown} {s : ExplanationStatement}
    (h : s ∈ gapStatements total b) : s.cls ≠ .directlyEvidenced := by
  unfold gapStatements at h
  split_ifs at h
  · exact List.mem_singleton.mp h ▸ ExplanationClass.noConfusion
  · cases h

omit [Platform] in
theorem cls_directStatements {s : ExplanationStatement}
    (h : s ∈ authorityStatements t ∨ (∃ o ∈ t.evidence, s ∈ observationStatements o) ∨
      s ∈ outcomeStatements t) : s.cls = .directlyEvidenced := by
  rcases h with h | ⟨o, -, h⟩ | h
  · simp only [authorityStatements, List.mem_append, List.mem_ite_nil_right,
      List.mem_singleton] at h
    obtain ⟨-, rfl⟩ | ⟨-, rfl⟩ := h
    · rfl
    · rfl
  · simp only [observationStatements] at h
    split_ifs at h <;> first
      | exact List.mem_singleton.mp h ▸ rfl
      | cases h
  · simp only [outcomeStatements, List.mem_ite_nil_right, List.mem_singleton] at h
    rw [h.2]

/-- The directly evidenced statements of an explanation. -/
theorem direct_statements (s : ExplanationStatement) :
    s ∈ (explainRequest t).statements ∧ s.cls = .directlyEvidenced ↔
      s ∈ authorityStatements t ∨ (∃ o ∈ t.evidence, s ∈ observationStatements o) ∨
        s ∈ outcomeStatements t := by
  obtain ⟨total, hparts⟩ : ∃ total, s ∈ (explainRequest t).statements ↔
      (∃ c ∈ (decomposeLatency t).components, s ∈ phaseStatements total c) ∨
        s ∈ authorityStatements t ∨ (∃ o ∈ t.evidence, s ∈ observationStatements o) ∨
        s ∈ reuseStatements (attributeResources t) ∨
        s ∈ queueStatements total (attributeResources t) ∨
        s ∈ gapStatements total (decomposeLatency t) ∨ s ∈ outcomeStatements t :=
    ⟨_, by simp only [explainRequest, List.mem_append, List.mem_flatMap, or_assoc]; rfl⟩
  rw [hparts]
  constructor
  · rintro ⟨⟨c, -, h⟩ | h | h | h | h | h | h, hcls⟩
    · exact absurd hcls (cls_phaseStatements h)
    · exact .inl h
    · exact .inr (.inl h)
    · exact absurd hcls (cls_reuseStatements h)
    · exact absurd hcls (cls_queueStatements h)
    · exact absurd hcls (cls_gapStatements h)
    · exact .inr (.inr h)
  · intro h
    refine ⟨?_, cls_directStatements t h⟩
    rcases h with h | h | h
    · exact .inr (.inl h)
    · exact .inr (.inr (.inl h))
    · exact .inr (.inr (.inr (.inr (.inr (.inr h)))))

end Statements

section Texts

/-- A statement about one observation is what it says. -/
theorem says_of_observationStatements {o : Observation} {s : ExplanationStatement}
    (h : s ∈ observationStatements o) : o.Says s := by
  unfold observationStatements at h
  split_ifs at h with hretry hfailure hrestart hmodel hadapter
  · rw [List.mem_singleton.mp h]
    simp [Observation.Says, hretry, evidenced]
  · rw [List.mem_singleton.mp h]
    simp [Observation.Says, hfailure, evidenced]
  · rw [List.mem_singleton.mp h]
    simp [Observation.Says, hrestart, evidenced]
  · rw [List.mem_singleton.mp h]
    simp [Observation.Says, hmodel, evidenced]
  · rw [List.mem_singleton.mp h]
    simp [Observation.Says, hadapter, evidenced]
  · cases h

/-- What an observation says starts with neither of the letters of the inferred texts. -/
theorem head_of_says {o : Observation} {s : ExplanationStatement} (h : o.Says s) :
    s.claim.head? = some 97 ∨ s.claim.head? = some 109 := by
  unfold Observation.Says at h
  split at h
  · simp [h, lit]
  · simp [h, lit]
  · simp [h, lit]
  · simp [h.2, lit]
  · simp [h.2, lit]
  · exact h.elim

/-- What is entailed and says that a worker was restarted is the statement of a restart. -/
theorem Entailed.workerRestarted {evidence : List Observation} {s : ExplanationStatement} {n : ℕ}
    (h : Entailed evidence s) (hclaim : s.claim = lit "request spans " ++ decimal n ++
      lit " worker boots (worker restart/failover)") (hphase : s.phase = lit "recovery") :
    WorkerRestarted evidence := by
  cases h with
  | restart _ _ _ hrestarted => exact hrestarted
  | epochs _ _ htotal _ =>
    exact absurd (hphase.symm.trans htotal) (show lit "recovery" ≠ lit "total" by decide)
  | event o _ hsays =>
    have hhead := head_of_says hsays
    simp [hclaim, lit] at hhead
  | outcome x hother _ =>
    have hhead := congrArg List.head? (hclaim.symm.trans hother)
    simp [lit] at hhead

/-- What is entailed and names an outcome is the statement of that outcome. -/
theorem Entailed.statesOutcome {evidence : List Observation} {s : ExplanationStatement}
    {x : Outcome} (h : Entailed evidence s)
    (hclaim : s.claim = lit "terminal outcome " ++ x.name) : StatesOutcome evidence x := by
  cases h with
  | restart _ hother _ _ =>
    have hhead := congrArg List.head? (hclaim.symm.trans hother)
    simp [lit] at hhead
  | epochs _ hother _ _ =>
    have hhead := congrArg List.head? (hclaim.symm.trans hother)
    simp [lit] at hhead
  | event o _ hsays =>
    have hhead := head_of_says hsays
    simp [hclaim, lit] at hhead
  | outcome y hsame hstates =>
    rw [Outcome.name_inj (List.append_cancel_left (hclaim.symm.trans hsame))]
    exact hstates

end Texts

section Traces
variable (t : RequestTrace)

theorem exists_restart_statement (h : 1 < t.boots.length) : ∃ s ∈ authorityStatements t,
    s.claim = lit "request spans " ++ decimal t.boots.length ++
      lit " worker boots (worker restart/failover)" ∧ s.phase = lit "recovery" := by
  simp [authorityStatements, h]

theorem exists_outcome_statement (h : t.outcome ≠ .unknown) : ∃ s ∈ outcomeStatements t,
    s.claim = lit "terminal outcome " ++ t.outcome.name := by
  simp [outcomeStatements, h]

variable {t}

theorem Entailed.of_authorityStatements {evidence : List Observation} {s : ExplanationStatement}
    (hrestart : 1 < t.boots.length → WorkerRestarted evidence)
    (hepochs : t.spansMultipleEpochs = true →
      ∃ o ∈ evidence, ∃ o' ∈ evidence, o.epoch ≠ o'.epoch)
    (hs : s ∈ authorityStatements t) : Entailed evidence s := by
  simp only [authorityStatements, List.mem_append, List.mem_ite_nil_right,
    List.mem_singleton] at hs
  obtain ⟨hboots, rfl⟩ | ⟨hspans, rfl⟩ := hs
  · exact .restart _ rfl rfl (hrestart hboots)
  · exact .epochs _ rfl rfl (hepochs hspans)

theorem Entailed.of_outcomeStatements {evidence : List Observation} {s : ExplanationStatement}
    (hout : t.outcome ≠ .unknown → StatesOutcome evidence t.outcome)
    (hs : s ∈ outcomeStatements t) : Entailed evidence s := by
  simp only [outcomeStatements, List.mem_ite_nil_right, List.mem_singleton] at hs
  obtain ⟨hne, rfl⟩ := hs
  exact .outcome _ rfl (hout hne)

variable (t)

/-- The explanation is evidenced when the two inferred statements are. -/
theorem directlyEvidenced_iff_inferred [Platform]
    (hepochs : t.spansMultipleEpochs = true →
      ∃ o ∈ t.evidence, ∃ o' ∈ t.evidence, o.epoch ≠ o'.epoch) :
    DirectlyEvidenced t (explainRequest t) ↔
      (1 < t.boots.length → WorkerRestarted t.evidence) ∧
        (t.outcome ≠ .unknown → StatesOutcome t.evidence t.outcome) := by
  have hdirect : DirectlyEvidenced t (explainRequest t) ↔
      ∀ s, s ∈ authorityStatements t ∨ (∃ o ∈ t.evidence, s ∈ observationStatements o) ∨
        s ∈ outcomeStatements t → Entailed t.evidence s := by
    simp only [DirectlyEvidenced, ← direct_statements, and_imp]
  rw [hdirect]
  constructor
  · intro h
    refine ⟨fun hboots => ?_, fun hout => ?_⟩
    · obtain ⟨s, hs, hclaim, hphase⟩ := exists_restart_statement t hboots
      exact (h s (.inl hs)).workerRestarted hclaim hphase
    · obtain ⟨s, hs, hclaim⟩ := exists_outcome_statement t hout
      exact (h s (.inr (.inr hs))).statesOutcome hclaim
  · rintro ⟨hrestart, hout⟩ s (hs | ⟨o, ho, hs⟩ | hs)
    · exact .of_authorityStatements hrestart hepochs hs
    · exact .event o ho (says_of_observationStatements hs)
    · exact .of_outcomeStatements hout hs

end Traces

section Evidence
variable {v : List Observation}

theorem firstObs_eq_none {t : ObsType} (h : firstObs v t = none) : ∀ o ∈ v, o.type ≠ t := by
  simpa [firstObs] using h

theorem lastObs_eq_none {t : ObsType} (h : lastObs v t = none) : ∀ o ∈ v, o.type ≠ t := by
  simpa [lastObs] using h

theorem firstObs_eq_some {t : ObsType} {o : Observation} (h : firstObs v t = some o) :
    o ∈ v ∧ o.type = t :=
  ⟨List.mem_of_find?_eq_some h, by simpa using List.find?_some h⟩

theorem lastObs_eq_some {t : ObsType} {o : Observation} (h : lastObs v t = some o) :
    o ∈ v ∧ o.type = t :=
  ⟨List.mem_reverse.mp (List.mem_of_find?_eq_some h), by simpa using List.find?_some h⟩

theorem countObs_eq_zero {t : ObsType} (h : ∀ o ∈ v, o.type ≠ t) : countObs v t = 0 := by
  unfold countObs
  induction v with
  | nil => rfl
  | cons o v ih =>
    have ho : (o.type == t) = false := by simpa using h o (by simp)
    rw [List.foldl_cons, ho]
    exact ih fun x hx => h x (by simp [hx])

/-- The outcome that the evidence leads to is stated by it, but for the completion with an
unknown code. -/
theorem statesOutcome_iff : ((outcomeOf v).1 ≠ .unknown → StatesOutcome v (outcomeOf v).1) ↔
    ∀ c, lastObs v .completion = some c →
      Outcome.fromCode (c.strField FieldKeys.outcome) ≠ .unknown ∨
        ∃ o ∈ v, o.type = .completion ∧ o.strField FieldKeys.outcome = Outcome.completed.name := by
  cases hc : lastObs v .completion with
  | some c =>
    obtain ⟨hmem, htype⟩ := lastObs_eq_some hc
    by_cases hcode : Outcome.fromCode (c.strField FieldKeys.outcome) = .unknown
    · have hout : (outcomeOf v).1 = .completed := by simp [outcomeOf, hc, hcode]
      have hsome : ¬ ∀ o ∈ v, o.type ≠ .completion := fun hno => hno c hmem htype
      simp [hout, StatesOutcome, hsome, hcode]
    · have hout : (outcomeOf v).1 = Outcome.fromCode (c.strField FieldKeys.outcome) := by
        simp [outcomeOf, hc, hcode]
      refine iff_of_true (fun _ => .inl ⟨c, hmem, htype, ?_⟩) ?_
      · rw [hout]
        exact Outcome.name_of_fromCode hcode
      · rintro x hx
        obtain rfl := Option.some.inj hx
        exact .inl hcode
  | none =>
    have hnone := lastObs_eq_none hc
    refine iff_of_true (fun hne => .inr ⟨hnone, ?_⟩) (by simp)
    cases hcancel : firstObs v .cancel with
    | some o =>
      have hout : (outcomeOf v).1 = .cancelled := by simp [outcomeOf, hc, hcancel]
      exact .inl ⟨hout, o, firstObs_eq_some hcancel⟩
    | none =>
      cases hfailure : firstObs v .failure with
      | some o =>
        have hout : (outcomeOf v).1 = .failed := by simp [outcomeOf, hc, hcancel, hfailure]
        exact .inr ⟨hout, o, firstObs_eq_some hfailure⟩
      | none =>
        have hcount := countObs_eq_zero (firstObs_eq_none hfailure)
        have hout : (outcomeOf v).1 = .unknown := by
          simp [outcomeOf, hc, hcancel, hfailure, hcount]
        exact absurd hout hne

end Evidence

section Reconstruction
variable [Platform] (obs : List Observation) (rid : RequestId)

/-- Several epochs are reported only when there are several. -/
theorem exists_epochs (h : (reconstructTrace obs rid).spansMultipleEpochs = true) :
    ∃ o ∈ obs, ∃ o' ∈ obs, o.epoch ≠ o'.epoch := by
  by_contra hno
  push Not at hno
  obtain ⟨-, -, -, hmin, hmax⟩ := reconstructTrace_authority obs rid
  refine absurd (hmin.trans (Eq.trans ?_ hmax.symm)) (bne_iff_ne.mp h)
  cases obs with
  | nil =>
    have hnil : sorter.sort traceLt ([] : List Observation) = [] :=
      List.perm_nil.mp (sorter.perm traceLt [])
    rw [hnil]
    rfl
  | cons o obs =>
    refine foldl_epoch_eq (e := o.epoch) fun x hx => ?_
    obtain ⟨y, hy, rfl⟩ := List.mem_map.mp hx
    exact hno y (sorter.mem_sort.mp hy) o (by simp)

/-- Several boots are reported exactly when there are several. -/
theorem one_lt_length_boots : 1 < (reconstructTrace obs rid).boots.length ↔
    ∃ o ∈ obs, ∃ o' ∈ obs, o.boot ≠ o'.boot := by
  obtain ⟨hboots, -⟩ := reconstructTrace_authority obs rid
  obtain ⟨hnodup, hmem⟩ :=
    foldl_pushNew ((sorter.sort traceLt obs).map (·.boot)) [] List.nodup_nil
  rw [← hboots] at hnodup hmem
  rw [← List.toFinset_card_of_nodup hnodup, Finset.one_lt_card]
  simp only [List.mem_toFinset, hmem, List.not_mem_nil, false_or, List.mem_map, sorter.mem_sort]
  constructor
  · rintro ⟨_, ⟨o, ho, rfl⟩, _, ⟨o', ho', rfl⟩, hne⟩
    exact ⟨o, ho, o', ho', hne⟩
  · rintro ⟨o, ho, o', ho', hne⟩
    exact ⟨_, ⟨o, ho, rfl⟩, _, ⟨o', ho', rfl⟩, hne⟩

/-- What the trace and its explanation are evidenced by. -/
theorem directlyEvidenced_iff_last :
    DirectlyEvidenced (reconstructTrace obs rid) (explainRequest (reconstructTrace obs rid)) ↔
      ((∃ o ∈ obs, ∃ o' ∈ obs, o.boot ≠ o'.boot) → WorkerRestarted obs) ∧
        ∀ c, lastObs (sorter.sort traceLt obs) .completion = some c →
          Outcome.fromCode (c.strField FieldKeys.outcome) ≠ .unknown ∨
            ∃ o ∈ obs, o.type = .completion ∧
              o.strField FieldKeys.outcome = Outcome.completed.name := by
  have hout : (reconstructTrace obs rid).outcome = (outcomeOf (sorter.sort traceLt obs)).1 := rfl
  have hrestarted : WorkerRestarted (sorter.sort traceLt obs) ↔ WorkerRestarted obs := by
    simp only [WorkerRestarted, sorter.mem_sort]
  rw [directlyEvidenced_iff_inferred _ (by
    simpa only [reconstructTrace_evidence, sorter.mem_sort] using exists_epochs obs rid),
    one_lt_length_boots, hout, reconstructTrace_evidence, hrestarted, statesOutcome_iff]
  simp only [sorter.mem_sort]

end Reconstruction

/-- Under every sort the directly evidenced statements are evidenced when several boots mean
a restart, and when a completion that may be sorted last has a known code or some completion
says that it completed. -/
theorem directlyEvidenced_iff (obs : List Observation) (rid : RequestId) :
    (∀ P : Platform, DirectlyEvidenced (@reconstructTrace P obs rid)
      (@explainRequest P (@reconstructTrace P obs rid))) ↔
      ((∀ o ∈ obs, ∀ o' ∈ obs, o.boot = o'.boot) ∨ WorkerRestarted obs) ∧
        ((∀ c ∈ obs, c.type = .completion →
            (∀ o ∈ obs, o.type = .completion → traceLt c o = false) →
              Outcome.fromCode (c.strField FieldKeys.outcome) ≠ .unknown) ∨
          ∃ o ∈ obs, o.type = .completion ∧
            o.strField FieldKeys.outcome = Outcome.completed.name) := by
  let stated : Prop := ∃ o ∈ obs, o.type = .completion ∧
    o.strField FieldKeys.outcome = Outcome.completed.name
  have hlast := (Platform.forall_sorter_iff fun S => ∀ c,
      (S.sort traceLt obs).reverse.find? (·.type == .completion) = some c →
        Outcome.fromCode (c.strField FieldKeys.outcome) ≠ .unknown ∨ stated).trans
    (forall_sort_findLast?_iff strictWeak_traceLt (·.type == .completion) obs _)
  have hevidenced : ∀ P : Platform, DirectlyEvidenced (@reconstructTrace P obs rid)
      (@explainRequest P (@reconstructTrace P obs rid)) ↔ _ :=
    fun P => @directlyEvidenced_iff_last P obs rid
  have hplatform : Nonempty Platform := ⟨Platform.machine⟩
  rw [forall_congr' hevidenced, forall_and, forall_const]
  refine and_congr ?_ (hlast.trans ?_)
  · constructor
    · intro h
      refine or_iff_not_imp_right.mpr fun hno o ho o' ho' => ?_
      by_contra hne
      exact hno (h ⟨o, ho, o', ho', hne⟩)
    · rintro (h | h) ⟨o, ho, o', ho', hne⟩
      · exact absurd (h o ho o' ho') hne
      · exact h
  · constructor
    · intro h
      refine or_iff_not_imp_right.mpr fun hno c hc htype hmax => ?_
      refine (h c ⟨hc, by simpa using htype, fun o ho hcomp => ?_⟩).resolve_right hno
      exact hmax o ho (by simpa using hcomp)
    · rintro (h | hstated) c hc
      · exact .inl (h c hc.mem (by simpa using hc.candidate) fun o ho htype =>
          hc.least o ho (by simpa using htype))
      · exact .inr hstated

/-- Two workers, each with a boot of its own. -/
def twoWorkers : List Observation :=
  [{ id := ⟨⟨0, 1⟩⟩, worker := ⟨⟨0, 1⟩⟩, boot := ⟨⟨0, 1⟩⟩ },
    { id := ⟨⟨0, 2⟩⟩, worker := ⟨⟨0, 2⟩⟩, boot := ⟨⟨0, 2⟩⟩ }]

/-- Their request is said to have met a restart. -/
theorem not_directlyEvidenced_twoWorkers :
    ¬ DirectlyEvidenced (@reconstructTrace Platform.machine twoWorkers {})
      (@explainRequest Platform.machine (@reconstructTrace Platform.machine twoWorkers {})) := by
  let _ : Platform := Platform.machine
  rw [directlyEvidenced_iff_last]
  intro h
  have hrestarted := h.1 (by simp [twoWorkers])
  simp [WorkerRestarted, twoWorkers] at hrestarted

end ServingObservatory
