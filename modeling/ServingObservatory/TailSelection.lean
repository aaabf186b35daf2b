import ServingObservatory.NearestRank
import ServingObservatory.ReplayOrder

/-!
# Tail selection

The tail of some traces are those whose total latency is at or above a percentile. The
percentile is taken from one sorted copy of the latencies, and the traces are selected
from another, sorted from the slowest on. The source computes ranks in doubles; beside
that, the same functions are given here with ranks in rational arithmetic.
-/
namespace ServingObservatory
open Std Sorting NearestRank

structure TailFactor where
  name : Str
  severity : F64 := F64.zero
  cls : ExplanationClass := .unknown
  note : Str := []

structure TailExplanation where
  requestId : RequestId := {}
  latencyNs : UInt64 := 0
  metrics : TailMetrics := {}
  factors : List TailFactor := []

/-- `0.05`. -/
def F64.material : F64 := ⟨0x3FA999999999999A⟩

/-- `90.0`. -/
def F64.ninety : F64 := ⟨0x4056800000000000⟩

section Tail
variable [Platform]

/-- The factor of a component, unless it only marks a moment or is not material. -/
def componentFactors (total : F64) (c : LatencyComponent) : List TailFactor :=
  if c.name = lit "arrival" ∨ c.name = lit "completion" ∨ c.name = lit "admission" then []
  else
    let frac := Platform.div (Platform.ofU64 c.exclusiveNs) total
    if Platform.lt frac F64.material then []
    else
      [{ name := c.name, severity := frac,
         cls := if c.onCriticalPath then .structurallyDerived else .temporallyCorrelated,
         note := lit "exclusive_ns=" ++ decimal c.exclusiveNs.toNat ++ lit " prov=" ++
           c.provenance.name }]

/-- Retries and cold models. -/
def observationFactors (o : Observation) : List TailFactor :=
  if o.type = .retry then
    [{ name := lit "retry", cls := .directlyEvidenced, note := o.strField FieldKeys.reason }]
  else if o.type = .modelResidency ∧ o.boolField FieldKeys.isWarm true = false then
    [{ name := lit "cold_model", cls := .directlyEvidenced, note := lit "cold" }]
  else []

def explainOneTail (t : RequestTrace) (metrics : TailMetrics) : TailExplanation :=
  let bd := decomposeLatency t
  let total := if bd.totalNs = 0 then F64.one else Platform.ofU64 bd.totalNs
  let restart : List TailFactor :=
    if t.boots.length > 1 then
      [{ name := lit "worker_restart", cls := .directlyEvidenced,
         note := lit "boots=" ++ decimal t.boots.length }]
    else []
  { requestId := t.requestId
    latencyNs := totalLatencyOf t
    metrics := metrics
    factors := bd.components.flatMap (componentFactors total) ++ restart ++
      t.evidence.flatMap observationFactors }

/-- The comparison that sorts by descending latency. -/
def slowerFirst (a b : RequestTrace) : Bool := totalLatencyOf a > totalLatencyOf b

/-- The second pass: the traces at or above a threshold, the slowest first. -/
def tailAbove (m : TailMetrics) (threshold : UInt64) (traces : List RequestTrace) :
    List TailExplanation :=
  let ordered := sorter.sort slowerFirst traces
  (ordered.filter fun t => totalLatencyOf t ≥ threshold).map (explainOneTail · m)

def explainTail (traces : List RequestTrace) (percentile : F64 := F64.ninety) :
    List TailExplanation :=
  let lats := traces.map totalLatencyOf
  tailAbove (tailMetrics lats) (percentileOf lats percentile) traces

/-- `percentile_of` with the rank in rational arithmetic. -/
def percentileExact (values : List UInt64) (p : ℚ) : UInt64 :=
  if values.isEmpty then 0
  else
    let v := sorter.sort (fun a b => decide (a < b)) values
    let idx := rank p v.length
    let idx := if idx < 1 then 1 else idx
    let idx := if idx > v.length then v.length else idx
    v.getD (idx - 1) 0

/-- `tail_metrics` with the ranks in rational arithmetic. -/
def tailMetricsExact (latencies : List UInt64) : TailMetrics :=
  { tailMetrics latencies with
    p50Ns := percentileExact latencies 50
    p90Ns := percentileExact latencies 90
    p95Ns := percentileExact latencies 95
    p99Ns := percentileExact latencies 99
    p999Ns := percentileExact latencies (999 / 10) }

/-- `explain_tail` with the rank in rational arithmetic. -/
def explainTailExact (traces : List RequestTrace) (p : ℚ) : List TailExplanation :=
  let lats := traces.map totalLatencyOf
  tailAbove (tailMetricsExact lats) (percentileExact lats p) traces

/-- The explained traces are the slowest ones down to a percentile, in order and with their
multiplicity. -/
def SelectsTail (traces : List RequestTrace) (p : ℚ) (out : List TailExplanation) : Prop :=
  ∃ tail : List RequestTrace,
    tail.Perm (traces.filter fun t =>
      totalLatencyOf t ≥ percentileExact (traces.map totalLatencyOf) p) ∧
    (tail.Pairwise fun a b => totalLatencyOf b ≤ totalLatencyOf a) ∧
    out = tail.map (explainOneTail · (tailMetricsExact (traces.map totalLatencyOf)))

end Tail

theorem strictWeak_u64 : StrictWeak fun a b : UInt64 => decide (a < b) where
  asymm {a b} h := by
    rw [decide_eq_true_eq] at h
    rw [decide_eq_false_iff_not]
    exact Std.not_lt.mpr (Std.le_of_lt h)
  negTrans {a b c} hab hbc := by
    rw [decide_eq_false_iff_not, Std.not_lt] at *
    exact Std.le_trans hbc hab

theorem strictWeak_slowerFirst : StrictWeak slowerFirst where
  asymm h := strictWeak_u64.asymm h
  negTrans hab hbc := strictWeak_u64.negTrans hbc hab

/-- Words that tie are equal. -/
theorem separates_u64 (l : List UInt64) : Separates (fun a b => decide (a < b)) l := by
  intro a _ b _ hab hba
  rw [decide_eq_false_iff_not, Std.not_lt] at hab hba
  exact Std.le_antisymm hba hab

/-- A fold that keeps the better of two words ends at one that no word of the list betters. -/
theorem foldl_best {r : UInt64 → UInt64 → Prop} {op : UInt64 → UInt64 → UInt64}
    (htrans : ∀ a b c, r a b → r b c → r a c) (hop : ∀ s v, r (op s v) s ∧ r (op s v) v)
    (hrefl : ∀ a, r a a) (values : List UInt64) (s : UInt64) :
    r (values.foldl op s) s ∧ ∀ a ∈ values, r (values.foldl op s) a := by
  induction values generalizing s with
  | nil => exact ⟨hrefl s, by simp⟩
  | cons v values ih =>
    obtain ⟨hstart, hrest⟩ := ih (op s v)
    refine ⟨htrans _ _ _ hstart (hop s v).1, fun a ha => ?_⟩
    rcases List.mem_cons.mp ha with rfl | htail
    · exact htrans _ _ _ hstart (hop s a).2
    · exact hrest a htail

theorem foldl_min_le (values : List UInt64) (s : UInt64) : ∀ a ∈ values, values.foldl min s ≤ a :=
  (foldl_best (r := (· ≤ ·)) (fun _ _ _ => Std.le_trans)
    (fun _ _ => ⟨Std.min_le_left, Std.min_le_right⟩) Std.le_refl values s).2

theorem le_foldl_max (values : List UInt64) (s : UInt64) :
    ∀ a ∈ values, a ≤ values.foldl max s := by
  have hmax : ∀ s v : UInt64, s ≤ max s v ∧ v ≤ max s v := by
    intro s v
    have hif : max s v = if s ≤ v then v else s := rfl
    rw [hif]
    split_ifs with h
    · exact ⟨h, Std.le_refl v⟩
    · exact ⟨Std.le_refl s, Std.le_of_not_ge h⟩
  exact (foldl_best (r := fun a b => b ≤ a) (fun _ _ _ hab hbc => Std.le_trans hbc hab) hmax
    Std.le_refl values s).2

section Percentiles
variable [Platform]

theorem sorted_u64 (values : List UInt64) :
    (sorter.sort (fun a b => decide (a < b)) values).Pairwise (· ≤ ·) :=
  (sorter.ascending values strictWeak_u64).imp fun {a b} h => by
    rwa [decide_eq_false_iff_not, Std.not_lt] at h

theorem sort_u64_perm {l l' : List UInt64} (h : l.Perm l') :
    sorter.sort (fun a b => decide (a < b)) l = sorter.sort (fun a b => decide (a < b)) l' :=
  sorter.sort_congr strictWeak_u64 h (separates_u64 l)

theorem percentileOf_perm {l l' : List UInt64} (h : l.Perm l') (p : F64) :
    percentileOf l p = percentileOf l' p := by
  rw [percentileOf, percentileOf, sort_u64_perm h, h.isEmpty_eq]

theorem percentileExact_perm {l l' : List UInt64} (h : l.Perm l') (p : ℚ) :
    percentileExact l p = percentileExact l' p := by
  rw [percentileExact, percentileExact, sort_u64_perm h, h.isEmpty_eq]

variable {values : List UInt64} (hne : values ≠ []) {p q : ℚ}
include hne

/-- A percentage has a rank within the list, which is not clamped. -/
theorem percentileExact_eq (hp : 0 < p) (hle : p ≤ 100) :
    ∃ (i : ℕ) (hi : i < (sorter.sort (fun a b => decide (a < b)) values).length),
      rank p values.length = i + 1 ∧
      percentileExact values p = (sorter.sort (fun a b => decide (a < b)) values)[i] := by
  have hlen : (sorter.sort (fun a b => decide (a < b)) values).length = values.length :=
    sorter.length_sort values
  have hpos := rank_pos hp (List.length_pos_iff.mpr hne)
  have hmax := rank_le hle values.length
  have hi : rank p values.length - 1 <
      (sorter.sort (fun a b => decide (a < b)) values).length := by omega
  refine ⟨rank p values.length - 1, hi, by omega, ?_⟩
  unfold percentileExact
  rw [if_neg (by simpa using hne)]
  simp only [hlen, if_neg (Nat.not_lt.mpr hpos), if_neg (Nat.not_lt.mpr hmax)]
  rw [List.getD_eq_getElem?_getD, List.getElem?_eq_getElem hi, Option.getD_some]

theorem covers_percentileExact (hp : 0 < p) (hle : p ≤ 100) :
    Covers values p (percentileExact values p) := by
  obtain ⟨i, hi, hrank, heq⟩ := percentileExact_eq hne hp hle
  have hlen : (sorter.sort (fun a b => decide (a < b)) values).length = values.length :=
    sorter.length_sort values
  rw [← hlen] at hrank
  rw [heq]
  exact covers_getElem (sorted_u64 values) (sorter.perm _ values) hrank hi

theorem percentileExact_mono (hp : 0 < p) (hpq : p ≤ q) (hq : q ≤ 100) :
    percentileExact values p ≤ percentileExact values q := by
  obtain ⟨i, hi, hrank, heq⟩ := percentileExact_eq hne hp (hpq.trans hq)
  obtain ⟨j, hj, hrank', heq'⟩ := percentileExact_eq hne (hp.trans_le hpq) hq
  have hmono := rank_mono hpq values.length
  rw [heq, heq']
  exact getElem_le_getElem (sorted_u64 values) (by omega) hj

omit hne in
/-- The percentiles lie in order between the extremes. -/
theorem tailMetricsExact_ordered (values : List UInt64) :
    ((tailMetricsExact values).minNs :: [(tailMetricsExact values).p50Ns,
      (tailMetricsExact values).p90Ns, (tailMetricsExact values).p95Ns,
      (tailMetricsExact values).p99Ns, (tailMetricsExact values).p999Ns,
      (tailMetricsExact values).maxNs]).IsChain (· ≤ ·) := by
  by_cases hne : values = []
  · subst hne
    simp [tailMetricsExact, tailMetrics, percentileExact]
  have hextremes : (tailMetricsExact values).minNs = values.foldl min (values.headD 0) ∧
      (tailMetricsExact values).maxNs = values.foldl max (values.headD 0) := by
    simp [tailMetricsExact, tailMetrics, hne]
  have hmem : ∀ p : ℚ, 0 < p → p ≤ 100 → percentileExact values p ∈ values := fun p hp hle =>
    (covers_percentileExact hne hp hle).mem
  have hmin : (tailMetricsExact values).minNs ≤ percentileExact values 50 := by
    rw [hextremes.1]
    exact foldl_min_le values _ _ (hmem 50 (by norm_num) (by norm_num))
  have hmax : percentileExact values (999 / 10) ≤ (tailMetricsExact values).maxNs := by
    rw [hextremes.2]
    exact le_foldl_max values _ _ (hmem (999 / 10) (by norm_num) (by norm_num))
  have hmono : ∀ p q : ℚ, 0 < p → p ≤ q → q ≤ 100 →
      percentileExact values p ≤ percentileExact values q := fun p q hp hpq hq =>
    percentileExact_mono hne hp hpq hq
  refine .cons_cons hmin (.cons_cons (hmono 50 90 ?_ ?_ ?_) (.cons_cons (hmono 90 95 ?_ ?_ ?_)
    (.cons_cons (hmono 95 99 ?_ ?_ ?_) (.cons_cons (hmono 99 (999 / 10) ?_ ?_ ?_)
    (.cons_cons hmax (.singleton _)))))) <;> norm_num

end Percentiles

section Selection
variable [Platform] (traces : List RequestTrace) (p : ℚ)

theorem selectsTail_explainTailExact : SelectsTail traces p (explainTailExact traces p) := by
  refine ⟨(sorter.sort slowerFirst traces).filter fun t =>
    totalLatencyOf t ≥ percentileExact (traces.map totalLatencyOf) p, ?_, ?_, rfl⟩
  · exact (sorter.perm slowerFirst traces).filter _
  · refine ((sorter.ascending traces strictWeak_slowerFirst).imp fun {a b} h => ?_).filter _
    simpa [slowerFirst] using h

/-- At least the traces from the rank of the percentile on are selected. -/
theorem length_explainTailExact_ge (hne : traces ≠ []) (hp : 0 < p) (hle : p ≤ 100) :
    traces.length + 1 ≤ (explainTailExact traces p).length + rank p traces.length := by
  have hlats : traces.map totalLatencyOf ≠ [] := by simpa using hne
  obtain ⟨tail, hperm, -, hout⟩ := selectsTail_explainTailExact traces p
  have hcovers := covers_percentileExact hlats hp hle
  have hfewer : (traces.map totalLatencyOf).countP
      (fun a => decide (a < percentileExact (traces.map totalLatencyOf) p)) <
        rank p traces.length := by
    have hlt := hcovers.fewer.trans_le (le_rank p _)
    rw [List.length_map] at hlt
    exact_mod_cast hlt
  have hsplit := List.length_eq_countP_add_countP
    (fun t => decide (totalLatencyOf t ≥ percentileExact (traces.map totalLatencyOf) p))
    (l := traces)
  have hbelow : traces.countP (fun t =>
      ¬ decide (totalLatencyOf t ≥ percentileExact (traces.map totalLatencyOf) p) = true) =
      (traces.map totalLatencyOf).countP
        (fun a => decide (a < percentileExact (traces.map totalLatencyOf) p)) := by
    rw [List.countP_map]
    refine List.countP_congr fun t _ => ?_
    simp
  rw [hout, List.length_map, hperm.length_eq, ← List.countP_eq_length_filter]
  omega

/-- The rank that the source computes in doubles is the one of rational arithmetic. -/
def RanksAs (percentile : F64) (p : ℚ) (n : ℕ) : Prop :=
  (Platform.toU64 (Platform.ceil (Platform.mul (Platform.div percentile F64.hundred)
    (Platform.ofU64 (UInt64.ofNat n))))).toNat = rank p n

variable {p}

/-- Where doubles give the rank of rational arithmetic, they give its percentile. -/
theorem percentileOf_eq_exact {values : List UInt64} {percentile : F64}
    (h : RanksAs percentile p values.length) :
    percentileOf values percentile = percentileExact values p := by
  have hlen : (sorter.sort (fun a b : UInt64 => decide (a < b)) values).length = values.length :=
    sorter.length_sort values
  unfold RanksAs at h
  simp only [percentileOf, percentileExact, hlen, h]

theorem tailMetrics_eq_exact {values : List UInt64}
    (h : ∀ x ∈ [(F64.mk 0x4049000000000000, (50 : ℚ)), (⟨0x4056800000000000⟩, 90),
      (⟨0x4057C00000000000⟩, 95), (⟨0x4058C00000000000⟩, 99), (⟨0x4058F9999999999A⟩, 999 / 10)],
      RanksAs x.1 x.2 values.length) : tailMetrics values = tailMetricsExact values := by
  simp only [List.forall_mem_cons] at h
  obtain ⟨h50, h90, h95, h99, h999, -⟩ := h
  by_cases hne : values = []
  · subst hne
    simp [tailMetricsExact, tailMetrics, percentileExact]
  · simp [tailMetricsExact, tailMetrics, hne, percentileOf_eq_exact h50, percentileOf_eq_exact h90,
      percentileOf_eq_exact h95, percentileOf_eq_exact h99, percentileOf_eq_exact h999]

/-- The tail of the source is that of rational arithmetic where its ranks are. -/
theorem explainTail_eq_exact {percentile : F64}
    (hmetrics : tailMetrics (traces.map totalLatencyOf) =
      tailMetricsExact (traces.map totalLatencyOf))
    (h : RanksAs percentile p traces.length) :
    explainTail traces percentile = explainTailExact traces p := by
  rw [← List.length_map (f := totalLatencyOf)] at h
  rw [explainTail, explainTailExact, hmetrics, percentileOf_eq_exact h]

end Selection

/-- Percentiles are nearest-rank, and the tail is what lies at or above one of them. -/
theorem percentiles_nearestRank [Platform] :
    (∀ values : List UInt64, values ≠ [] → ∀ p : ℚ, 0 < p → p ≤ 100 →
        Covers values p (percentileExact values p)) ∧
      (∀ values : List UInt64, values ≠ [] → ∀ p q : ℚ, 0 < p → p ≤ q → q ≤ 100 →
        percentileExact values p ≤ percentileExact values q) ∧
      (∀ values values' : List UInt64, values.Perm values' → ∀ p : ℚ,
        percentileExact values p = percentileExact values' p) ∧
      (∀ values : List UInt64, ((tailMetricsExact values).minNs ::
        [(tailMetricsExact values).p50Ns, (tailMetricsExact values).p90Ns,
          (tailMetricsExact values).p95Ns, (tailMetricsExact values).p99Ns,
          (tailMetricsExact values).p999Ns, (tailMetricsExact values).maxNs]).IsChain (· ≤ ·)) ∧
      ∀ (traces : List RequestTrace) (p : ℚ), 0 < p → p ≤ 100 →
        SelectsTail traces p (explainTailExact traces p) ∧
          (traces ≠ [] →
            traces.length + 1 ≤ (explainTailExact traces p).length + rank p traces.length) :=
  ⟨fun _ hne _ => covers_percentileExact hne, fun _ hne _ _ => percentileExact_mono hne,
    fun _ _ hperm p => percentileExact_perm hperm p, tailMetricsExact_ordered,
    fun traces p hp hle => ⟨selectsTail_explainTailExact traces p, fun hne =>
      length_explainTailExact_ge traces p hne hp hle⟩⟩

/-- Of no traces none is selected, although the rank of the percentile asks for one. -/
theorem no_tail_of_no_traces :
    ¬ ∀ (traces : List RequestTrace) (p : ℚ), 0 < p → p ≤ 100 → traces.length + 1 ≤
      (@explainTailExact Platform.machine traces p).length + rank p traces.length := by
  intro h
  have hnone := h [] 90 (by norm_num) (by norm_num)
  have hperm := (@selectsTail_explainTailExact Platform.machine [] 90)
  obtain ⟨tail, htail, -, hout⟩ := hperm
  rw [hout, List.length_map, htail.length_eq] at hnone
  simp [rank] at hnone

end ServingObservatory
