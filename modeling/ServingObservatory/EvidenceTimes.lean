import ServingObservatory.ReplayOrder

/-!
# Times of evidence

Sorted evidence ascends in time. So the first observation of a type has the smallest
time of that type, and the last one has the largest, whatever the order of arrival.
-/
namespace ServingObservatory
open Std Sorting

theorem max_eq (a b : UInt64) : max a b = if a ≤ b then b else a := rfl

instance UInt64.lawfulOrderMax : LawfulOrderMax UInt64 :=
  .of_max_le_iff
    (fun a b c => by
      simp only [max_eq, UInt64.le_iff_toNat_le]
      split_ifs <;> omega)
    (fun a b => by
      rw [max_eq]
      split_ifs
      · exact .inr rfl
      · exact .inl rfl)

/-- The times of the observations of a type. -/
def timesOf (obs : List Observation) (t : ObsType) : List UInt64 :=
  (obs.filter (·.type == t)).map fun o => (obsTime o).ts

/-- The smallest time of a type, or zero. -/
def earliest (obs : List Observation) (t : ObsType) : UInt64 := (timesOf obs t).min?.getD 0

/-- The largest time of a type, or zero. -/
def latest (obs : List Observation) (t : ObsType) : UInt64 := (timesOf obs t).max?.getD 0

/-- The smallest time of all, or zero. -/
def firstTime (obs : List Observation) : UInt64 := (obs.map fun o => (obsTime o).ts).min?.getD 0

/-- The largest time of all, or zero. -/
def lastTime (obs : List Observation) : UInt64 := (obs.map fun o => (obsTime o).ts).max?.getD 0

/-- There is an observation of the type. -/
def occurs (obs : List Observation) (t : ObsType) : Bool := obs.any (·.type == t)

theorem le_of_not_traceLt {a b : Observation} (h : traceLt b a = false) :
    (obsTime a).ts ≤ (obsTime b).ts := by
  unfold traceLt at h
  by_cases hne : (obsTime b).ts ≠ (obsTime a).ts
  · simpa [hne] using h
  · exact UInt64.le_of_eq (not_not.mp hne).symm

/-- The times of sorted evidence ascend. -/
theorem times_of_ascending {v : List Observation} (h : Ascending traceLt v) :
    (v.map fun o => (obsTime o).ts).Pairwise (· ≤ ·) :=
  List.pairwise_map.mpr (h.imp le_of_not_traceLt)

theorem min?_of_pairwise {l l' : List UInt64} (hl : l.Perm l') (h : l.Pairwise (· ≤ ·)) :
    l'.min? = l.head? := by
  cases l with
  | nil => rw [List.nil_perm.mp hl]; rfl
  | cons a l =>
    rw [List.head?_cons, List.min?_eq_some_iff]
    refine ⟨hl.mem_iff.mp (by simp), fun b hb => ?_⟩
    rcases List.mem_cons.mp (hl.mem_iff.mpr hb) with rfl | hmem
    · exact UInt64.le_rfl
    · exact (List.pairwise_cons.mp h).1 b hmem

theorem max?_of_pairwise {l l' : List UInt64} (hl : l.Perm l') (h : l.Pairwise (· ≤ ·)) :
    l'.max? = l.getLast? := by
  rcases List.eq_nil_or_concat l with rfl | ⟨l, a, rfl⟩
  · rw [List.nil_perm.mp hl]; rfl
  · rw [List.concat_eq_append] at hl h ⊢
    rw [List.getLast?_append, List.getLast?_singleton, Option.some_or, List.max?_eq_some_iff]
    refine ⟨hl.mem_iff.mp (by simp), fun b hb => ?_⟩
    rcases List.mem_append.mp (hl.mem_iff.mpr hb) with hmem | hmem
    · exact (List.pairwise_append.mp h).2.2 b hmem a (by simp)
    · exact UInt64.le_of_eq (List.mem_singleton.mp hmem)

section Bounds
variable {obs extra : List Observation} {t : ObsType}

theorem mem_timesOf {s : UInt64} :
    s ∈ timesOf obs t ↔ ∃ o ∈ obs, o.type = t ∧ (obsTime o).ts = s := by
  simp [timesOf, and_assoc]

theorem timesOf_eq_nil_iff : timesOf obs t = [] ↔ ∀ o ∈ obs, o.type ≠ t := by
  simp [timesOf]

theorem timesOf_append (obs extra : List Observation) (t : ObsType) :
    timesOf (obs ++ extra) t = timesOf obs t ++ timesOf extra t := by simp [timesOf]

/-- The smallest time belongs to the type and is below its other times. -/
theorem earliest_spec (h : timesOf obs t ≠ []) :
    earliest obs t ∈ timesOf obs t ∧ ∀ s ∈ timesOf obs t, earliest obs t ≤ s := by
  obtain ⟨s, hs⟩ := Option.ne_none_iff_exists'.mp (mt List.min?_eq_none_iff.mp h)
  rw [earliest, hs]
  exact List.min?_eq_some_iff.mp hs

theorem latest_spec (h : timesOf obs t ≠ []) :
    latest obs t ∈ timesOf obs t ∧ ∀ s ∈ timesOf obs t, s ≤ latest obs t := by
  obtain ⟨s, hs⟩ := Option.ne_none_iff_exists'.mp (mt List.max?_eq_none_iff.mp h)
  rw [latest, hs]
  exact List.max?_eq_some_iff.mp hs

/-- The smallest time is zero exactly with an observation that has no time. -/
theorem earliest_eq_zero_iff (h : timesOf obs t ≠ []) :
    earliest obs t = 0 ↔ ∃ o ∈ obs, o.type = t ∧ (obsTime o).ts = 0 := by
  obtain ⟨hmem, hle⟩ := earliest_spec h
  rw [← mem_timesOf]
  exact ⟨fun hzero => hzero ▸ hmem, fun hzero => UInt64.le_zero_iff.mp (hle 0 hzero)⟩

theorem latest_ne_zero {o : Observation} (ho : o ∈ obs) (htype : o.type = t)
    (hts : (obsTime o).ts ≠ 0) : latest obs t ≠ 0 := by
  have hmem : (obsTime o).ts ∈ timesOf obs t := mem_timesOf.mpr ⟨o, ho, htype, rfl⟩
  intro hzero
  have hle := (latest_spec (List.ne_nil_of_mem hmem)).2 _ hmem
  rw [hzero] at hle
  exact hts (UInt64.le_zero_iff.mp hle)

/-- Later evidence does not change the smallest time of a type that occurs. -/
theorem earliest_append (h : timesOf obs t ≠ [])
    (hlater : ∀ x ∈ extra, ∀ o ∈ obs, (obsTime o).ts < (obsTime x).ts) :
    earliest (obs ++ extra) t = earliest obs t := by
  obtain ⟨hmem, hle⟩ := earliest_spec h
  have hmin : (timesOf (obs ++ extra) t).min? = some (earliest obs t) := by
    rw [timesOf_append, List.min?_eq_some_iff]
    refine ⟨List.mem_append_left _ hmem, fun s hs => ?_⟩
    rcases List.mem_append.mp hs with hin | hin
    · exact hle s hin
    · obtain ⟨o, ho, -, heq⟩ := mem_timesOf.mp hmem
      obtain ⟨x, hx, -, rfl⟩ := mem_timesOf.mp hin
      exact heq ▸ UInt64.le_of_lt (hlater x hx o ho)
  rw [earliest, hmin, Option.getD_some]

/-- Evidence without the type does not change its largest time. -/
theorem latest_append_of_nil (h : timesOf extra t = []) :
    latest (obs ++ extra) t = latest obs t := by
  rw [latest, timesOf_append, h, List.append_nil, latest]

end Bounds

section Selected
variable {v : List Observation} {t : ObsType} {o : Observation}

theorem mem_of_firstObs (h : firstObs v t = some o) : o ∈ v := List.mem_of_find?_eq_some h

theorem mem_of_lastObs (h : lastObs v t = some o) : o ∈ v :=
  List.mem_reverse.mp (List.mem_of_find?_eq_some h)

end Selected

theorem ts_tdom (o : Option Observation) :
    (tdom o).ts = (o.map fun o => (obsTime o).ts).getD 0 := by
  cases o <;> rfl

section Sorted
variable {v obs : List Observation} (hperm : v.Perm obs) (hsorted : Ascending traceLt v)
include hperm hsorted

theorem ts_firstObs (t : ObsType) : (tdom (firstObs v t)).ts = earliest obs t := by
  have hsub : Ascending traceLt (v.filter (·.type == t)) := hsorted.filter _
  rw [ts_tdom, earliest, timesOf,
    min?_of_pairwise ((hperm.filter _).map _) (times_of_ascending hsub), List.head?_map,
    List.head?_filter, firstObs]

theorem ts_lastObs (t : ObsType) : (tdom (lastObs v t)).ts = latest obs t := by
  have hsub : Ascending traceLt (v.filter (·.type == t)) := hsorted.filter _
  rw [ts_tdom, latest, timesOf, max?_of_pairwise ((hperm.filter _).map _) (times_of_ascending hsub),
    List.getLast?_map, List.getLast?_eq_head?_reverse, ← List.filter_reverse, List.head?_filter,
    lastObs]

theorem ts_head : (tdom v.head?).ts = firstTime obs := by
  rw [ts_tdom, firstTime, min?_of_pairwise (hperm.map _) (times_of_ascending hsorted),
    List.head?_map]

theorem ts_getLast : (tdom v.getLast?).ts = lastTime obs := by
  rw [ts_tdom, lastTime, max?_of_pairwise (hperm.map _) (times_of_ascending hsorted),
    List.getLast?_map]

omit hsorted in
theorem isSome_firstObs (t : ObsType) : (firstObs v t).isSome = occurs obs t := by
  rw [firstObs, Bool.eq_iff_iff, List.find?_isSome, occurs, List.any_eq_true]
  simp only [hperm.mem_iff]

end Sorted
end ServingObservatory
