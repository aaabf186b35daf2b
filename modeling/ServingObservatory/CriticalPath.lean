import ServingObservatory.ExclusiveLatency
import ServingObservatory.WeightedChains

/-!
# The critical path

In the order of their starts, whatever ends before an interval starts also ends before all
later ones start. So the table of the longest chains, kept in machine words, is the table of
the heaviest chains, and the marked components are a heaviest choice of intervals that share
no instant.
-/
namespace ServingObservatory
open Sorting WeightedChains

/-- The intervals share no instant. -/
def IV.Apart (x y : IV) : Prop := ∀ t, ¬ (x.Covers t ∧ y.Covers t)

/-- The length of the interval at an index. -/
def durationAt (ivs : List IV) (i : ℕ) : ℕ := ((ivs[i]?.map IV.duration).getD 0).toNat

/-- The first interval ends where the second starts, or before. -/
def Precedes (ivs : List IV) (j i : ℕ) : Prop := ∃ y ∈ ivs[j]?, ∃ x ∈ ivs[i]?, y.e ≤ x.s

instance (ivs : List IV) : DecidableRel (Precedes ivs) := fun j i =>
  inferInstanceAs (Decidable (∃ y ∈ ivs[j]?, ∃ x ∈ ivs[i]?, y.e ≤ x.s))

theorem IV.toNat_duration (x : IV) : x.duration.toNat = x.e.toNat - x.s.toNat := by
  unfold duration
  split_ifs with h
  · exact UInt64.toNat_sub_of_le _ _ h
  · have hlt := UInt64.lt_iff_toNat_lt.mp (UInt64.not_le.mp h)
    rw [UInt64.toNat_zero]
    omega

theorem IV.Apart.symm {x y : IV} (h : x.Apart y) : y.Apart x := fun t ht => h t ht.symm

theorem IV.apart_of_le {x y : IV} (h : x.e ≤ y.s) : x.Apart y := by
  rintro t ⟨hx, hy⟩
  have hle := UInt64.le_iff_toNat_le.mp h
  unfold Covers at hx hy
  omega

/-- Of two intervals that last, the one that starts no later ends before the other. -/
theorem IV.Apart.le {x y : IV} (h : x.Apart y) (hy : 0 < y.duration.toNat)
    (hx : 0 < x.duration.toNat) (hs : x.s ≤ y.s) : x.e ≤ y.s := by
  have hle := UInt64.le_iff_toNat_le.mp hs
  rw [toNat_duration] at hx hy
  rw [UInt64.le_iff_toNat_le]
  by_contra hlt
  exact h y.s.toNat ⟨⟨hle, by omega⟩, ⟨le_rfl, by omega⟩⟩

section Order
variable (ivs : List IV)

theorem strictWeak_chainLt : StrictWeak (chainLt ivs) where
  asymm {a b} h := by
    unfold chainLt at h ⊢
    cases ha : ivs[a]? <;> cases hb : ivs[b]? <;> simp only [ha, hb] at h ⊢ <;> grind
  negTrans {a b c} hab hbc := by
    unfold chainLt at hab hbc ⊢
    cases ha : ivs[a]? <;> cases hb : ivs[b]? <;> cases hc : ivs[c]? <;>
      simp only [ha, hb, hc] at hab hbc ⊢ <;> grind

/-- No interval starts before an earlier one. -/
def StartsInOrder (l : List ℕ) : Prop :=
  l.Pairwise fun j i => ∀ y ∈ ivs[j]?, ∀ x ∈ ivs[i]?, y.s ≤ x.s

variable {ivs}

theorem startsInOrder_of_ascending {l : List ℕ} (h : Ascending (chainLt ivs) l) :
    StartsInOrder ivs l := by
  refine h.imp fun {j i} hlt y hy x hx => ?_
  simp only [Option.mem_def] at hy hx
  simp only [chainLt, hx, hy] at hlt
  by_contra hgt
  have hs := UInt64.not_le.mp hgt
  simp [UInt64.ne_of_lt hs, hs] at hlt

theorem StartsInOrder.hereditary {l : List ℕ} (h : StartsInOrder ivs l)
    (hl : ∀ i ∈ l, i < ivs.length) : Hereditary (Precedes ivs) l := by
  refine h.imp_of_mem fun {i k} hi hk hs j => ?_
  rintro ⟨y, hy, x, hx, hle⟩
  obtain ⟨z, hz⟩ : ∃ z, ivs[k]? = some z := ⟨_, List.getElem?_eq_getElem (hl k hk)⟩
  exact ⟨y, hy, z, hz, UInt64.le_trans hle (hs x hx z hz)⟩

end Order

section Tables
variable {ivs : List IV}

/-- No chain outlasts the ends of its last interval, so the sums of the table stay in range. -/
theorem chain_le {l : List ℕ} {t : Table ℕ}
    (h : Settled (durationAt ivs) (Precedes ivs) l t) (hl : StartsInOrder ivs l)
    {before after : List ℕ} {i : ℕ} (heq : l = before ++ i :: after) {x : IV}
    (hx : ivs[i]? = some x) : t.chain i ≤ max x.s.toNat x.e.toNat := by
  obtain ⟨r, hpicked, hchain, -⟩ := h.entry before i after heq
  have hdur : durationAt ivs i = x.e.toNat - x.s.toNat := by
    simp [durationAt, hx, IV.toNat_duration]
  rcases hpicked with ⟨rfl, -⟩ | ⟨first, j, rest, hbefore, rfl, ⟨y, hy, x', hx', hle⟩, -⟩
  · simp only at hchain
    omega
  · obtain rfl : x = x' := Option.some.inj (hx.symm.trans hx')
    have hl' : l = first ++ j :: (rest ++ i :: after) := by simp [heq, hbefore]
    have hprev := chain_le h hl hl' hy
    have hs : y.s ≤ x.s := by
      rw [hl', StartsInOrder, List.pairwise_append, List.pairwise_cons] at hl
      exact hl.2.1.1 i (by simp) y hy x hx
    have hs' := UInt64.le_iff_toNat_le.mp hs
    have he := UInt64.le_iff_toNat_le.mp hle
    simp only at hchain
    omega
termination_by before.length
decreasing_by
  rw [hbefore, List.length_append, List.length_cons]
  omega

/-- The words of the chain table are the numbers of a table. -/
structure Tabulates (ivs : List IV) (c : Chain) (t : Table ℕ) : Prop where
  length_chain : c.chain.length = ivs.length
  length_pred : c.pred.length = ivs.length
  chain : ∀ j, (c.chain.getD j 0).toNat = t.chain j
  pred : ∀ j, c.pred.getD j none = t.pred j
  best : c.best.toNat = t.best
  last : c.bestIdx = t.last

theorem chainPred_concat (chain : List UInt64) (before : List ℕ) (j i : ℕ) :
    chainPred ivs chain (before ++ [j]) i =
      if Precedes ivs j i ∧ (chainPred ivs chain before i).1 < chain.getD j 0 then
        (chain.getD j 0, some j)
      else chainPred ivs chain before i := by
  unfold chainPred
  rw [List.foldl_append, List.foldl_cons, List.foldl_nil]
  generalize List.foldl _ ((0 : UInt64), (none : Option ℕ)) before = acc
  cases hj : ivs[j]? with
  | none => simp [show ¬ Precedes ivs j i by simp [Precedes, hj]]
  | some y =>
    cases hi : ivs[i]? with
    | none => simp [show ¬ Precedes ivs j i by simp [Precedes, hi]]
    | some x =>
      have hiff : Precedes ivs j i ↔ y.e ≤ x.s := by simp [Precedes, hj, hi]
      by_cases hle : y.e ≤ x.s <;> simp [hiff, hle]

/-- The search for the best interval before one picks the first of the heaviest. -/
theorem Tabulates.pick_eq {c : Chain} {t : Table ℕ} (h : Tabulates ivs c t) (before : List ℕ)
    (i : ℕ) : pick t.chain (Precedes ivs · i) before =
      ((chainPred ivs c.chain before i).1.toNat, (chainPred ivs c.chain before i).2) := by
  induction before using List.reverseRecOn with
  | nil => rfl
  | append_singleton before j ih =>
    rw [pick, List.foldl_append, ← pick, ih, chainPred_concat, List.foldl_cons, List.foldl_nil,
      better, ← h.chain j]
    simp only [← UInt64.lt_iff_toNat_lt]
    split_ifs <;> rfl

/-- What handling one interval makes of the table. -/
theorem chainStep_fields (c : Chain) {order before : List ℕ} (i : ℕ)
    (htake : order.take before.length = before) :
    let p := chainPred ivs c.chain before i
    let len := p.1 + (ivs[i]?.map IV.duration).getD 0
    let c' := chainStep ivs order c (i, before.length)
    c'.chain = c.chain.set i len ∧ c'.pred = c.pred.set i p.2 ∧
      c'.best = (if c.best < len then len else c.best) ∧
      c'.bestIdx = if c.best < len then some i else c.bestIdx := by
  simp only [chainStep, htake, gt_iff_lt]
  split_ifs <;> simp

theorem getD_set {α : Type} {l : List α} {i : ℕ} (hi : i < l.length) (v d : α) (j : ℕ) :
    (l.set i v).getD j d = if j = i then v else l.getD j d := by
  by_cases hj : j = i
  · subst hj
    simp [hi]
  · simp [List.getD_eq_getElem?_getD, List.getElem?_set_ne (Ne.symm hj), hj]

/-- One interval, whose sum stays in range. -/
theorem Tabulates.step {c : Chain} {t : Table ℕ} (h : Tabulates ivs c t) {order before : List ℕ}
    {i : ℕ} (hi : i < ivs.length) (htake : order.take before.length = before)
    (hfit : (chainPred ivs c.chain before i).1.toNat + durationAt ivs i < 2 ^ 64) :
    Tabulates ivs (chainStep ivs order c (i, before.length))
      (t.add (durationAt ivs) (Precedes ivs) before i) := by
  obtain ⟨hchain, hpred, hbest, hlast⟩ := chainStep_fields c i htake
  have hlen : ((chainPred ivs c.chain before i).1 + (ivs[i]?.map IV.duration).getD 0).toNat =
      (pick t.chain (Precedes ivs · i) before).1 + durationAt ivs i := by
    rw [h.pick_eq, UInt64.toNat_add]
    exact Nat.mod_eq_of_lt hfit
  have hlt : c.best < (chainPred ivs c.chain before i).1 + (ivs[i]?.map IV.duration).getD 0 ↔
      t.best < (pick t.chain (Precedes ivs · i) before).1 + durationAt ivs i := by
    rw [UInt64.lt_iff_toNat_lt, hlen, h.best]
  refine ⟨?_, ?_, fun j => ?_, fun j => ?_, ?_, ?_⟩
  · rw [hchain, List.length_set, h.length_chain]
  · rw [hpred, List.length_set, h.length_pred]
  · rw [hchain, getD_set (h.length_chain.symm ▸ hi), Table.chain_add]
    split_ifs
    · exact hlen
    · exact h.chain j
  · rw [hpred, getD_set (h.length_pred.symm ▸ hi), Table.pred_add, h.pick_eq]
    split_ifs
    · rfl
    · exact h.pred j
  · simp only [hbest, Table.add, hlt]
    split_ifs
    · exact hlen
    · exact h.best
  · simp only [hlast, Table.add, hlt, h.last]

/-- The table before the first interval. -/
def initialChain (ivs : List IV) : Chain :=
  { chain := ivs.map fun _ => 0, pred := ivs.map fun _ => none }

theorem tabulates_initialChain (ivs : List IV) : Tabulates ivs (initialChain ivs) {} where
  length_chain := by simp [initialChain]
  length_pred := by simp [initialChain]
  chain j := by
    rw [initialChain, List.getD_eq_getElem?_getD, List.getElem?_map]
    cases ivs[j]? <;> rfl
  pred j := by
    rw [initialChain, List.getD_eq_getElem?_getD, List.getElem?_map]
    cases ivs[j]? <;> rfl
  best := rfl
  last := rfl

/-- An order in which the intervals are handled. -/
structure ChainOrder (ivs : List IV) (l : List ℕ) : Prop where
  nodup : l.Nodup
  lt_length : ∀ i ∈ l, i < ivs.length
  starts : StartsInOrder ivs l

theorem ChainOrder.initial {l l' : List ℕ} (h : ChainOrder ivs l) (hl : l' <+: l) :
    ChainOrder ivs l' :=
  ⟨h.nodup.sublist hl.sublist, fun i hi => h.lt_length i (hl.subset hi),
    h.starts.sublist hl.sublist⟩

theorem chainOrder_sort (S : Sorter) (ivs : List IV) :
    ChainOrder ivs (S.sort (chainLt ivs) (List.range ivs.length)) where
  nodup := (S.perm _ _).nodup_iff.mpr List.nodup_range
  lt_length _ hi := List.mem_range.mp (S.mem_sort.mp hi)
  starts := startsInOrder_of_ascending (S.ascending _ (strictWeak_chainLt ivs))

/-- No sum of the chain table leaves the range of machine words. -/
def NoChainOverflow (ivs : List IV) (order : List ℕ) : Prop :=
  ∀ before i after, order = before ++ i :: after →
    (chainPred ivs (before.zipIdx.foldl (chainStep ivs order) (initialChain ivs)).chain
      before i).1.toNat + durationAt ivs i < 2 ^ 64

/-- The sum for an interval behind those already in the table. -/
theorem Tabulates.fits {c : Chain} {before : List ℕ} {i : ℕ}
    (h : Tabulates ivs c (build (durationAt ivs) (Precedes ivs) before))
    (horder : ChainOrder ivs (before ++ [i])) :
    (chainPred ivs c.chain before i).1.toNat + durationAt ivs i < 2 ^ 64 := by
  obtain ⟨x, hx⟩ : ∃ x, ivs[i]? = some x :=
    ⟨_, List.getElem?_eq_getElem (horder.lt_length i (by simp))⟩
  have hle := chain_le (settled_build (durationAt ivs) (Precedes ivs) horder.nodup) horder.starts
    rfl hx
  rw [build_concat, Table.chain_add, if_pos rfl, h.pick_eq] at hle
  have hs := x.s.toNat_lt
  have he := x.e.toNat_lt
  simp only at hle
  omega

/-- The fold over the order keeps the words of the table. -/
theorem tabulates_foldl {order l : List ℕ} (horder : ChainOrder ivs order) (hl : l <+: order) :
    Tabulates ivs (l.zipIdx.foldl (chainStep ivs order) (initialChain ivs))
      (build (durationAt ivs) (Precedes ivs) l) := by
  induction l using List.reverseRecOn with
  | nil => exact tabulates_initialChain ivs
  | append_singleton l i ih =>
    have hpre : l <+: order := (List.prefix_append l [i]).trans hl
    have hprev := ih hpre
    rw [List.zipIdx_append, List.foldl_append, build_concat]
    simpa using hprev.step (horder.lt_length i (hl.subset (by simp)))
      (List.prefix_iff_eq_take.mp hpre).symm (hprev.fits (horder.initial hl))

theorem noChainOverflow {order : List ℕ} (horder : ChainOrder ivs order) :
    NoChainOverflow ivs order := by
  rintro before i after rfl
  have hpre : before ++ [i] <+: before ++ i :: after := ⟨after, by simp⟩
  exact (tabulates_foldl horder ((List.prefix_append _ _).trans hpre)).fits
    (horder.initial hpre)

end Tables

/-- With an index for each element, the walk back ends before the indices run out. -/
theorem pathFrom_eq {pred : List (Option ℕ)} {o : Option ℕ} {p : List ℕ}
    (h : Walk (pred.getD · none) o p) {n : ℕ} (hn : p.length ≤ n) : pathFrom pred n o = p := by
  induction h generalizing n with
  | done => cases n <;> rfl
  | step h ih =>
    cases n with
    | zero => simp at hn
    | succ n => rw [pathFrom, ih (by simpa using hn)]

/-- The intervals at two indices share no instant. -/
def ApartAt (ivs : List IV) (i j : ℕ) : Prop := ∀ x ∈ ivs[i]?, ∀ y ∈ ivs[j]?, x.Apart y

/-- The choices of intervals that share no instant. -/
def Disjointed (ivs : List IV) (S : Finset ℕ) : Prop :=
  S ⊆ Finset.range ivs.length ∧ (S : Set ℕ).Pairwise (ApartAt ivs)

/-- The indices of the marked components. -/
def LatencyBreakdown.marked (b : LatencyBreakdown) : Finset ℕ :=
  {i ∈ Finset.range b.components.length | (b.components[i]?).any (·.onCriticalPath)}

section Choices
variable {ivs : List IV} {order : List ℕ}

instance : Std.Symm (ApartAt ivs) := ⟨fun _ _ h y hy x hx => (h x hx y hy).symm⟩

theorem durationAt_eq {i : ℕ} {x : IV} (h : ivs[i]? = some x) :
    durationAt ivs i = x.duration.toNat := by simp [durationAt, h]

/-- A choice of intervals that share no instant, those that last in the given order. -/
theorem pairwise_precedes_of_disjointed (horder : ChainOrder ivs order) {S : Finset ℕ}
    (hS : Disjointed ivs S) :
    (order.filter fun i => i ∈ S ∧ 0 < durationAt ivs i).Pairwise (Precedes ivs) := by
  have hstarts := horder.starts.sublist
    (List.filter_sublist (p := fun i => i ∈ S ∧ 0 < durationAt ivs i))
  have hne := horder.nodup.sublist
    (List.filter_sublist (p := fun i => i ∈ S ∧ 0 < durationAt ivs i))
  refine (hstarts.and hne).imp_of_mem fun {j i} hj hi hji => ?_
  simp only [List.mem_filter, decide_eq_true_eq] at hj hi
  obtain ⟨y, hy⟩ : ∃ y, ivs[j]? = some y :=
    ⟨_, List.getElem?_eq_getElem (horder.lt_length j hj.1)⟩
  obtain ⟨x, hx⟩ : ∃ x, ivs[i]? = some x :=
    ⟨_, List.getElem?_eq_getElem (horder.lt_length i hi.1)⟩
  have hapart := hS.2 hj.2.1 hi.2.1 hji.2 y hy x hx
  exact ⟨y, hy, x, hx, hapart.le (durationAt_eq hx ▸ hi.2.2) (durationAt_eq hy ▸ hj.2.2)
    (hji.1 y hy x hx)⟩

theorem weight_filter_eq_sum (horder : order.Perm (List.range ivs.length)) {S : Finset ℕ}
    (hS : S ⊆ Finset.range ivs.length) (w : ℕ → ℕ) :
    weight w (order.filter fun i => i ∈ S ∧ 0 < w i) = ∑ i ∈ S, w i := by
  have hnodup : order.Nodup := horder.nodup_iff.mpr List.nodup_range
  rw [weight, ← List.sum_toFinset w (hnodup.filter _)]
  have hset : (order.filter fun i => i ∈ S ∧ 0 < w i).toFinset = {i ∈ S | w i ≠ 0} := by
    ext i
    simp only [List.mem_toFinset, List.mem_filter, decide_eq_true_eq, Finset.mem_filter,
      Nat.pos_iff_ne_zero, horder.mem_iff, List.mem_range, and_iff_right_iff_imp]
    exact fun h => Finset.mem_range.mp (hS h.1)
  rw [hset, Finset.sum_filter_ne_zero]

/-- The intervals on a chain share no instant. -/
theorem apartAt_of_pairwise {p : List ℕ} (h : p.reverse.Pairwise (Precedes ivs)) :
    {i | i ∈ p}.Pairwise (ApartAt ivs) := by
  refine ((List.pairwise_reverse.mp h).imp ?_).set_pairwise
  rintro i j ⟨y, hy, x, hx, hle⟩ x' hx' y' hy'
  rw [Option.mem_unique hy' hy, Option.mem_unique hx' hx]
  exact (IV.apart_of_le hle).symm

end Choices

/-- A heaviest choice of intervals that share no instant, each of which lasts. -/
structure HeaviestChoice (ivs : List IV) (p : List ℕ) : Prop where
  nodup : p.Nodup
  lt_length : ∀ i ∈ p, i < ivs.length
  positive : ∀ i ∈ p, 0 < durationAt ivs i
  apart : {i | i ∈ p}.Pairwise (ApartAt ivs)
  greatest : IsGreatest {d | ∃ S, Disjointed ivs S ∧ d = ∑ i ∈ S, durationAt ivs i}
    (weight (durationAt ivs) p)

theorem length_exclusive_sweep (ivs : List IV) : (sweep ivs).exclusive.length = ivs.length := by
  have hfold : ∀ (l : List UInt64) (st : Sweep),
      (l.foldl (sweepStep ivs) st).exclusive.length = st.exclusive.length := by
    intro l
    induction l with
    | nil => exact fun _ => rfl
    | cons cur l ih =>
      intro st
      rw [List.foldl_cons, ih]
      unfold sweepStep
      split_ifs
      · rfl
      · dsimp only
        split <;> simp
  unfold sweep
  split
  · rw [hfold, List.length_map]
  · rw [List.length_map]

section Marks
variable [Platform] (ivs : List IV)

/-- The walk back over the predecessors ends, and what it visits is a heaviest choice. -/
theorem walk_criticalPath : Walk ((chainTable ivs).pred.getD · none) (chainTable ivs).bestIdx
    (criticalPath ivs) ∧ HeaviestChoice ivs (criticalPath ivs) := by
  have horder := chainOrder_sort sorter ivs
  have hperm := sorter.perm (chainLt ivs) (List.range ivs.length)
  generalize horder' : sorter.sort (chainLt ivs) (List.range ivs.length) = order at horder hperm
  have htable : Tabulates ivs (chainTable ivs) (build (durationAt ivs) (Precedes ivs) order) := by
    rw [chainTable, horder']
    exact tabulates_foldl horder List.prefix_rfl
  have hsettled := settled_build (durationAt ivs) (Precedes ivs) horder.nodup
  obtain ⟨p, hwalk, hsub, hR, hweight, hpos⟩ :=
    hsettled.exists_walk (horder.starts.hereditary horder.lt_length)
  have hnodup : p.Nodup := List.nodup_reverse.mp (horder.nodup.sublist hsub)
  have hlt : ∀ i ∈ p, i < ivs.length := fun i hi =>
    horder.lt_length i (hsub.subset (List.mem_reverse.mpr hi))
  have hlen : p.length ≤ ivs.length := by simpa [hperm.length_eq] using hsub.length_le
  rw [← htable.last, ← funext htable.pred] at hwalk
  rw [criticalPath, pathFrom_eq hwalk hlen]
  refine ⟨hwalk, hnodup, hlt, hpos, apartAt_of_pairwise hR,
    ⟨p.toFinset, ⟨fun i hi => ?_, ?_⟩, ?_⟩, ?_⟩
  · exact Finset.mem_range.mpr (hlt i (List.mem_toFinset.mp hi))
  · simpa using apartAt_of_pairwise hR
  · rw [List.sum_toFinset _ hnodup, weight]
  · rintro d ⟨S, hS, rfl⟩
    rw [← weight_filter_eq_sum hperm hS.1, hweight]
    exact hsettled.weight_le horder.nodup List.filter_sublist
      (pairwise_precedes_of_disjointed horder hS)

/-- What an optimal critical path is: the components stand for the intervals, one each, and
those that are marked last, share no instant and are a heaviest choice of such intervals. No
sum of the chains overflows, and the walk over the predecessors ends. -/
structure OptimalCriticalPath (ivs : List IV) (b : LatencyBreakdown) : Prop where
  components : b.components.map (fun c => (c.phase, c.durationNs)) =
    ivs.map fun iv => (iv.phase, iv.duration)
  apart : (b.marked : Set ℕ).Pairwise (ApartAt ivs)
  positive : ∀ c ∈ b.components, c.onCriticalPath = true → 0 < c.durationNs
  greatest : IsGreatest {d | ∃ S, Disjointed ivs S ∧ d = ∑ i ∈ S, durationAt ivs i}
    ((b.components.filter (·.onCriticalPath)).map (·.durationNs.toNat)).sum
  no_overflow : NoChainOverflow ivs (sorter.sort (chainLt ivs) (List.range ivs.length))
  terminates :
    Walk ((chainTable ivs).pred.getD · none) (chainTable ivs).bestIdx (criticalPath ivs)

variable {ivs}

/-- The components are the intervals, marked where the critical path goes. -/
theorem marks_components {t : RequestTrace} (htotal : (t.getPhase .total).present = true) :
    (decomposeLatency t).components.map (fun c => (c.phase, c.durationNs, c.onCriticalPath)) =
      (intervals t.phases).zipIdx.map fun z =>
        (z.1.phase, z.1.duration, (criticalPath (intervals t.phases)).contains z.2) := by
  simp only [decomposeLatency, htotal, Bool.not_true, Bool.false_eq_true, if_false, List.map_map]
  have hzip : ((intervals t.phases).zip (sweep (intervals t.phases)).exclusive).map Prod.fst =
      intervals t.phases := List.map_fst_zip (length_exclusive_sweep _).ge
  generalize criticalPath (intervals t.phases) = path
  conv_rhs => rw [← hzip, List.zipIdx_map, List.map_map]
  rfl

/-- The component for the interval at an index. -/
theorem component_at {t : RequestTrace} (htotal : (t.getPhase .total).present = true) (i : ℕ) :
    (decomposeLatency t).components[i]?.map (fun c => (c.durationNs, c.onCriticalPath)) =
      (intervals t.phases)[i]?.map fun iv =>
        (iv.duration, (criticalPath (intervals t.phases)).contains i) := by
  have hget := congrArg (fun l => (l.map Prod.snd)[i]?) (marks_components htotal)
  simp only [List.map_map, List.getElem?_map, List.getElem?_zipIdx, Option.map_map] at hget
  simpa [Function.comp_def] using hget

theorem length_components {t : RequestTrace} (htotal : (t.getPhase .total).present = true) :
    (decomposeLatency t).components.length = (intervals t.phases).length := by
  simpa using congrArg List.length (marks_components htotal)

theorem marked_eq {t : RequestTrace} (htotal : (t.getPhase .total).present = true) :
    (decomposeLatency t).marked = (criticalPath (intervals t.phases)).toFinset := by
  have hlt := (walk_criticalPath (intervals t.phases)).2.lt_length
  ext i
  have hat := component_at htotal i
  rw [LatencyBreakdown.marked, Finset.mem_filter, Finset.mem_range, length_components htotal,
    List.mem_toFinset]
  by_cases hi : i < (intervals t.phases).length
  · obtain ⟨iv, hiv⟩ : ∃ iv, (intervals t.phases)[i]? = some iv := ⟨_, List.getElem?_eq_getElem hi⟩
    obtain ⟨c, hc, hkey⟩ := Option.map_eq_some_iff.mp (hat.trans (by rw [hiv]; rfl))
    have hmark := congrArg Prod.snd hkey
    simp only at hmark
    simp [hi, hc, hmark]
  · exact iff_of_false (fun h => hi h.1) fun h => hi (hlt i h)

/-- The marked durations add up to the weight of the path. -/
theorem sum_marked {t : RequestTrace} (htotal : (t.getPhase .total).present = true) :
    (((decomposeLatency t).components.filter (·.onCriticalPath)).map (·.durationNs.toNat)).sum =
      weight (durationAt (intervals t.phases)) (criticalPath (intervals t.phases)) := by
  obtain ⟨-, hchoice⟩ := walk_criticalPath (intervals t.phases)
  generalize hpath : criticalPath (intervals t.phases) = path at hchoice
  generalize hivs : intervals t.phases = ivs at *
  have hkeys := marks_components htotal
  rw [hivs, hpath] at hkeys
  have hperm : ((List.range ivs.length).filter (path.contains ·)).Perm path := by
    rw [List.perm_ext_iff_of_nodup (List.nodup_range.filter _) hchoice.nodup]
    intro i
    simpa using hchoice.lt_length i
  calc _ = ((((decomposeLatency t).components.map
          fun c => (c.phase, c.durationNs, c.onCriticalPath)).filter (·.2.2)).map
          (·.2.1.toNat)).sum := by
        rw [List.filter_map, List.map_map]
        rfl
    _ = ((ivs.zipIdx.filter fun z => path.contains z.2).map fun z => z.1.duration.toNat).sum := by
        rw [hkeys, List.filter_map, List.map_map]
        rfl
    _ = ((ivs.zipIdx.filter fun z => path.contains z.2).map fun z => durationAt ivs z.2).sum := by
        refine congrArg List.sum (List.map_congr_left fun z hz => ?_)
        have hget := List.mk_mem_zipIdx_iff_getElem?.mp (List.mem_filter.mp hz).1
        exact (durationAt_eq hget).symm
    _ = (((List.range ivs.length).filter (path.contains ·)).map (durationAt ivs)).sum := by
        rw [List.range_eq_range', ← List.zipIdx_map_snd, List.filter_map, List.map_map]
        rfl
    _ = weight (durationAt ivs) path := (hperm.map _).sum_eq

/-- The critical path is optimal, for phases with arbitrary ends. -/
theorem critical_path_optimal (t : RequestTrace) (htotal : (t.getPhase .total).present = true) :
    OptimalCriticalPath (intervals t.phases) (decomposeLatency t) where
  components := by
    have hkeys := congrArg (List.map fun k : Phase × UInt64 × Bool => (k.1, k.2.1))
      (marks_components htotal)
    rw [List.map_map, List.map_map] at hkeys
    refine hkeys.trans ?_
    conv_rhs => rw [← List.zipIdx_map_fst 0 (intervals t.phases), List.map_map]
    rfl
  apart := by
    rw [marked_eq htotal, List.coe_toFinset]
    exact (walk_criticalPath _).2.apart
  positive c hc hmark := by
    obtain ⟨i, hi, rfl⟩ := List.mem_iff_getElem.mp hc
    have hat := component_at htotal i
    rw [List.getElem?_eq_getElem hi] at hat
    obtain ⟨iv, hiv, hkey⟩ := Option.map_eq_some_iff.mp hat.symm
    simp only [Prod.mk.injEq, hmark, List.contains_iff_mem] at hkey
    have hpos := (walk_criticalPath _).2.positive i hkey.2
    rw [durationAt_eq hiv, hkey.1] at hpos
    exact UInt64.lt_iff_toNat_lt.mpr hpos
  greatest := by
    rw [sum_marked htotal]
    exact (walk_criticalPath _).2.greatest
  no_overflow := noChainOverflow (chainOrder_sort sorter _)
  terminates := (walk_criticalPath _).1

end Marks

/-- Two phases in a row against one across both, with an empty one and one that runs backwards. -/
theorem critical_path_optimal_crossing :
    let calls : List PhaseCall :=
      [⟨.queue, 10, 18, .unknown, [], []⟩, ⟨.decode, 15, 25, .unknown, [], []⟩,
        ⟨.prefill, 18, 24, .unknown, [], []⟩, ⟨.dispatch, 18, 18, .unknown, [], []⟩,
        ⟨.transfer, 25, 12, .unknown, [], []⟩, ⟨.total, 10, 30, .unknown, [], []⟩]
    let t : RequestTrace := { phases := .fill calls }
    (t.getPhase .total).present = true ∧
      @OptimalCriticalPath Platform.machine (intervals t.phases)
        (@decomposeLatency Platform.machine t) := by
  intro calls t
  exact ⟨by decide, @critical_path_optimal Platform.machine t (by decide)⟩

end ServingObservatory
