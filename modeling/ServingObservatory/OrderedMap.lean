import Mathlib.Tactic

/-!
# Sorted maps read in key order

Facts about `Std.ExtTreeMap`, the extensional sorted map: the entry list is the
unique strictly sorted list of the entries, a fresh key adds one entry, and
inserting an already sorted list without overwriting rebuilds exactly that list.
-/
namespace ServingObservatory.OrderedMap
open Std
variable {κ ν : Type*} [Ord κ] [TransOrd κ]

/-- Entries sorted by strictly increasing key. -/
def SortedKeys (l : List (κ × ν)) : Prop := l.Pairwise fun a b => compare a.1 b.1 = .lt

theorem sortedKeys_toList (m : ExtTreeMap κ ν) : SortedKeys m.toList :=
  ExtTreeMap.ordered_keys_toList

theorem SortedKeys.nodup {l : List (κ × ν)} (h : SortedKeys l) : l.Nodup :=
  h.imp fun hab he => by simp [he, ReflCmp.compare_self] at hab

/-- Two strictly sorted lists with the same entries are equal. -/
theorem SortedKeys.eq_of_mem_iff {l l' : List (κ × ν)} (h : SortedKeys l) (h' : SortedKeys l')
    (hmem : ∀ p, p ∈ l ↔ p ∈ l') : l = l' := by
  have hperm : l.Perm l' := (List.perm_ext_iff_of_nodup h.nodup h'.nodup).mpr hmem
  refine hperm.eq_of_pairwise (fun a b _ _ hab hba => ?_) h h'
  have hswap : compare a.1 b.1 = (compare b.1 a.1).swap := OrientedCmp.eq_swap
  rw [hswap, hba] at hab
  cases hab

variable [LawfulEqOrd κ]

theorem toList_insert_perm (m : ExtTreeMap κ ν) {k : κ} (v : ν) (hk : m[k]? = none) :
    (m.insert k v).toList.Perm ((k, v) :: m.toList) := by
  have hnotin : (k, v) ∉ m.toList := by
    rw [ExtTreeMap.mem_toList_iff_getElem?_eq_some, hk]
    simp
  refine (List.perm_ext_iff_of_nodup (sortedKeys_toList _).nodup
    (List.nodup_cons.mpr ⟨hnotin, (sortedKeys_toList m).nodup⟩)).mpr fun ⟨k', v'⟩ => ?_
  simp only [ExtTreeMap.mem_toList_iff_getElem?_eq_some, List.mem_cons, ExtTreeMap.getElem?_insert,
    Prod.mk.injEq]
  by_cases h : k = k'
  · subst h
    simp [hk, eq_comm]
  · simp [h, Ne.symm h]

/-- `emplace` over a list: a key already present keeps its value. -/
def emplaceAll (m : ExtTreeMap κ ν) (l : List (κ × ν)) : ExtTreeMap κ ν :=
  l.foldl (fun m p => m.insertIfNew p.1 p.2) m

theorem getElem?_emplaceAll (m : ExtTreeMap κ ν) {l : List (κ × ν)} (hl : SortedKeys l) (k : κ)
    (v : ν) : (emplaceAll m l)[k]? = some v ↔ m[k]? = some v ∨ m[k]? = none ∧ (k, v) ∈ l := by
  induction l generalizing m with
  | nil => simp [emplaceAll]
  | cons p l ih =>
    obtain ⟨hp, hl⟩ := List.pairwise_cons.mp hl
    have hnot : ∀ w, (p.1, w) ∉ l := fun w hw => by simpa using hp _ hw
    change (emplaceAll (m.insertIfNew p.1 p.2) l)[k]? = some v ↔ _
    rw [ih _ hl, ExtTreeMap.getElem?_insertIfNew]
    by_cases hk : p.1 = k
    · subst hk
      by_cases hm : p.1 ∈ m
      · have hsome : m[p.1]?.isSome := by simpa using hm
        cases h : m[p.1]? <;> simp_all
      · have hnone : m[p.1]? = none := by simpa using hm
        obtain ⟨p1, p2⟩ := p
        simp_all [eq_comm]
    · obtain ⟨p1, p2⟩ := p
      simp_all [Ne.symm hk]

theorem insertIfNew_of_none {m : ExtTreeMap κ ν} {k : κ} (h : m[k]? = none) (v : ν) :
    m.insertIfNew k v = m.insert k v := by
  have hk : k ∉ m := by simpa using h
  refine ExtTreeMap.ext_getElem? fun j => ?_
  simp only [ExtTreeMap.getElem?_insertIfNew, ExtTreeMap.getElem?_insert, hk, not_false_eq_true,
    and_true]

theorem insertIfNew_of_some {m : ExtTreeMap κ ν} {k : κ} {w : ν} (h : m[k]? = some w) (v : ν) :
    m.insertIfNew k v = m := by
  have hk : k ∈ m := by
    rw [← ExtTreeMap.isSome_getElem?_iff_mem, h]
    rfl
  refine ExtTreeMap.ext_getElem? fun j => ?_
  rw [ExtTreeMap.getElem?_insertIfNew, if_neg fun hnew => hnew.2 hk]

/-- The first entry of a key counts, unless the key was present. -/
theorem getElem?_emplaceAll_eq [DecidableEq κ] (m : ExtTreeMap κ ν) (l : List (κ × ν)) (k : κ) :
    (emplaceAll m l)[k]? = m[k]?.or ((l.find? (·.1 = k)).map Prod.snd) := by
  induction l generalizing m with
  | nil => simp [emplaceAll]
  | cons p l ih =>
    change (emplaceAll (m.insertIfNew p.1 p.2) l)[k]? = _
    rw [ih, List.find?_cons]
    cases h : m[p.1]? with
    | some w =>
      rw [insertIfNew_of_some h]
      by_cases hk : p.1 = k
      · subst hk
        simp [h]
      · simp [hk]
    | none =>
      rw [insertIfNew_of_none h, ExtTreeMap.getElem?_insert]
      by_cases hk : p.1 = k
      · subst hk
        simp [h]
      · simp [hk]

/-- Every entry of an emplaced list is an entry of the list. -/
theorem mem_of_getElem?_emplaceAll {m : ExtTreeMap κ ν} {l : List (κ × ν)} {k : κ} {v : ν}
    (h : (emplaceAll m l)[k]? = some v) : m[k]? = some v ∨ (k, v) ∈ l := by
  induction l generalizing m with
  | nil => exact .inl h
  | cons p l ih =>
    rcases ih h with hm | hl
    · rw [ExtTreeMap.getElem?_insertIfNew] at hm
      split_ifs at hm with hk
      · obtain rfl := LawfulEqOrd.eq_of_compare hk.1
        cases hm
        exact .inr List.mem_cons_self
      · exact .inl hm
    · exact .inr (List.mem_cons_of_mem _ hl)

omit [LawfulEqOrd κ] in
theorem size_emplaceAll_le (m : ExtTreeMap κ ν) (l : List (κ × ν)) :
    (emplaceAll m l).size ≤ m.size + l.length := by
  induction l generalizing m with
  | nil => exact Nat.le_refl _
  | cons p l ih =>
    have hone : (m.insertIfNew p.1 p.2).size ≤ m.size + 1 := ExtTreeMap.size_insertIfNew_le
    have htail := ih (m.insertIfNew p.1 p.2)
    rw [List.length_cons]
    exact htail.trans (by omega)

/-- Pairs whose keys are all new are all kept. -/
theorem toList_emplaceAll_perm {m : ExtTreeMap κ ν} {l : List (κ × ν)}
    (hl : (l.map Prod.fst).Nodup) (hnew : ∀ p ∈ l, m[p.1]? = none) :
    (emplaceAll m l).toList.Perm (m.toList ++ l) := by
  induction l generalizing m with
  | nil => simp [emplaceAll]
  | cons p l ih =>
    obtain ⟨hp, hl⟩ := List.nodup_cons.mp hl
    obtain ⟨hnone, hnew⟩ := List.forall_mem_cons.mp hnew
    have hkeep : ∀ q ∈ l, (m.insert p.1 p.2)[q.1]? = none := by
      intro q hq
      have hne : compare p.1 q.1 ≠ .eq := fun h =>
        hp (LawfulEqCmp.eq_of_compare h ▸ List.mem_map_of_mem hq)
      rw [ExtTreeMap.getElem?_insert, if_neg hne, hnew q hq]
    have hrest := ih hl hkeep
    rw [emplaceAll, List.foldl_cons, insertIfNew_of_none hnone]
    refine hrest.trans (((toList_insert_perm m p.2 hnone).append_right l).trans ?_)
    simpa using List.perm_middle.symm

@[simp] theorem toList_emplaceAll {l : List (κ × ν)} (hl : SortedKeys l) :
    (emplaceAll ∅ l).toList = l := by
  refine (sortedKeys_toList _).eq_of_mem_iff hl fun ⟨k, v⟩ => ?_
  rw [ExtTreeMap.mem_toList_iff_getElem?_eq_some, getElem?_emplaceAll ∅ hl]
  simp

theorem emplaceAll_toList (m : ExtTreeMap κ ν) : emplaceAll ∅ m.toList = m :=
  ExtTreeMap.toList_inj.mp (toList_emplaceAll (sortedKeys_toList m))

/-- `m[k] = v` over a list: a later entry takes the place of an earlier one. -/
def insertAll (m : ExtTreeMap κ ν) (l : List (κ × ν)) : ExtTreeMap κ ν :=
  l.foldl (fun m p => m.insert p.1 p.2) m

theorem mem_of_getElem?_insertAll {m : ExtTreeMap κ ν} {l : List (κ × ν)} {k : κ} {v : ν}
    (h : (insertAll m l)[k]? = some v) : m[k]? = some v ∨ (k, v) ∈ l := by
  induction l generalizing m with
  | nil => exact .inl h
  | cons p l ih =>
    rcases ih h with hm | hl
    · rw [ExtTreeMap.getElem?_insert] at hm
      split_ifs at hm with hk
      · obtain rfl := LawfulEqOrd.eq_of_compare hk
        cases hm
        exact .inr List.mem_cons_self
      · exact .inl hm
    · exact .inr (List.mem_cons_of_mem _ hl)

theorem getElem?_insertAll (m : ExtTreeMap κ ν) {l : List (κ × ν)} (hl : SortedKeys l) (k : κ)
    (v : ν) : (insertAll m l)[k]? = some v ↔
      (k, v) ∈ l ∨ m[k]? = some v ∧ ∀ w, (k, w) ∉ l := by
  induction l generalizing m with
  | nil => simp [insertAll]
  | cons p l ih =>
    obtain ⟨hp, hl⟩ := List.pairwise_cons.mp hl
    have hnot : ∀ w, (p.1, w) ∉ l := fun w hw => by simpa using hp _ hw
    change (insertAll (m.insert p.1 p.2) l)[k]? = some v ↔ _
    rw [ih _ hl, ExtTreeMap.getElem?_insert]
    obtain ⟨p1, p2⟩ := p
    by_cases hk : p1 = k
    · subst hk
      simp_all [eq_comm]
    · simp_all [Ne.symm hk]

theorem insertAll_toList (m : ExtTreeMap κ ν) : insertAll ∅ m.toList = m := by
  refine ExtTreeMap.toList_inj.mp
    ((sortedKeys_toList _).eq_of_mem_iff (sortedKeys_toList m) fun ⟨k, v⟩ => ?_)
  rw [ExtTreeMap.mem_toList_iff_getElem?_eq_some, getElem?_insertAll ∅ (sortedKeys_toList m)]
  simp

section Grouping
variable {α : Type*} (key : α → Option κ)

/-- `groups[k].push_back(a)`, for the elements that have a key. -/
def pushBack (m : ExtTreeMap κ (List α)) (a : α) : ExtTreeMap κ (List α) :=
  match key a with
  | some k => m.insert k (m.getD k [] ++ [a])
  | none => m

theorem getD_pushBack [DecidableEq κ] (m : ExtTreeMap κ (List α)) (a : α) (k : κ) :
    (pushBack key m a).getD k [] = m.getD k [] ++ if key a = some k then [a] else [] := by
  unfold pushBack
  cases ha : key a with
  | none => simp
  | some k' =>
    by_cases hk : k' = k
    · simp [hk]
    · simp [hk, ExtTreeMap.getD_insert]

theorem mem_pushBack (m : ExtTreeMap κ (List α)) (a : α) (k : κ) :
    k ∈ pushBack key m a ↔ k ∈ m ∨ key a = some k := by
  unfold pushBack
  cases ha : key a with
  | none => simp
  | some k' => simp [ExtTreeMap.mem_insert, or_comm]

/-- A group is what the list holds for its key, in the order of the list. -/
theorem getD_foldl_pushBack [DecidableEq κ] (m : ExtTreeMap κ (List α)) (l : List α) (k : κ) :
    (l.foldl (pushBack key) m).getD k [] = m.getD k [] ++ l.filter fun a => key a = some k := by
  induction l generalizing m with
  | nil => simp
  | cons a l ih =>
    rw [List.foldl_cons, ih, getD_pushBack, List.append_assoc]
    by_cases ha : key a = some k <;> simp [ha]

theorem mem_foldl_pushBack (m : ExtTreeMap κ (List α)) (l : List α) (k : κ) :
    k ∈ l.foldl (pushBack key) m ↔ k ∈ m ∨ ∃ a ∈ l, key a = some k := by
  induction l generalizing m with
  | nil => simp
  | cons a l ih =>
    rw [List.foldl_cons, ih, mem_pushBack]
    simp [or_assoc]

omit [Ord κ] [TransOrd κ] [LawfulEqOrd κ] in
/-- The groups of some distinct keys hold every element with such a key, once. -/
theorem flatMap_group_perm [DecidableEq κ] {ks : List κ} (hks : ks.Nodup) (l : List α) :
    (ks.flatMap fun k => l.filter fun a => key a = some k).Perm
      (l.filter fun a => ∃ k ∈ ks, key a = some k) := by
  induction ks with
  | nil => simp
  | cons k ks ih =>
    obtain ⟨hk, hks⟩ := List.nodup_cons.mp hks
    let rest := l.filter fun a => ∃ k' ∈ k :: ks, key a = some k'
    have hhead : rest.filter (fun a => key a = some k) = l.filter fun a => key a = some k := by
      rw [List.filter_filter]
      refine List.filter_congr fun a _ => ?_
      by_cases ha : key a = some k <;> simp [ha]
    have htail : rest.filter (fun a => !decide (key a = some k)) =
        l.filter fun a => ∃ k' ∈ ks, key a = some k' := by
      rw [List.filter_filter]
      refine List.filter_congr fun a _ => ?_
      by_cases ha : key a = some k
      · have hnone : ¬ ∃ k' ∈ ks, some k = some k' := by
          rintro ⟨k', hk', heq⟩
          exact hk (Option.some.inj heq ▸ hk')
        simpa [ha] using hnone
      · simp [ha]
    have hsplit := List.filter_append_perm (fun a => decide (key a = some k)) rest
    rw [hhead, htail] at hsplit
    exact ((ih hks).append_left _).trans hsplit

end Grouping

section Accumulating
variable {α : Type*} (key : α → κ) (step : ν → α → ν) (init : ν)

/-- `m[key(a)]` takes a step; a new entry starts from the initial value. -/
def updateAt (m : ExtTreeMap κ ν) (a : α) : ExtTreeMap κ ν :=
  m.insert (key a) (step (m.getD (key a) init) a)

/-- The entry of a key has taken the steps of the elements with that key. -/
theorem getD_foldl_updateAt [DecidableEq κ] (m : ExtTreeMap κ ν) (l : List α) (k : κ) :
    (l.foldl (updateAt key step init) m).getD k init =
      (l.filter fun a => key a = k).foldl step (m.getD k init) := by
  induction l generalizing m with
  | nil => rfl
  | cons a l ih =>
    rw [List.foldl_cons, ih, updateAt, ExtTreeMap.getD_insert]
    by_cases hk : key a = k
    · subst hk
      simp
    · simp [hk]

theorem mem_foldl_updateAt (m : ExtTreeMap κ ν) (l : List α) (k : κ) :
    k ∈ l.foldl (updateAt key step init) m ↔ k ∈ m ∨ ∃ a ∈ l, key a = k := by
  induction l generalizing m with
  | nil => simp
  | cons a l ih =>
    rw [List.foldl_cons, ih, updateAt, ExtTreeMap.mem_insert, Std.compare_eq_iff_eq, or_assoc,
      List.exists_mem_cons_iff]
    exact or_left_comm

end Accumulating

/-- Maps with the same keys list them in the same order. -/
theorem keys_congr {ν' : Type*} {m : ExtTreeMap κ ν} {m' : ExtTreeMap κ ν'}
    (h : ∀ k, k ∈ m ↔ k ∈ m') : m.keys = m'.keys := by
  have hperm : m.keys.Perm m'.keys := by
    refine (List.perm_ext_iff_of_nodup ExtTreeMap.nodup_keys ExtTreeMap.nodup_keys).mpr fun k => ?_
    rw [ExtTreeMap.mem_keys, ExtTreeMap.mem_keys]
    exact h k
  refine hperm.eq_of_pairwise (fun a b _ _ hab hba => ?_) ExtTreeMap.ordered_keys
    ExtTreeMap.ordered_keys
  have hswap : compare a b = (compare b a).swap := OrientedCmp.eq_swap
  rw [hswap, hba] at hab
  cases hab

/-- The entries of a map by its keys. -/
theorem toList_eq_map_keys (m : ExtTreeMap κ ν) (default : ν) :
    m.toList = m.keys.map fun k => (k, m.getD k default) := by
  rw [← ExtTreeMap.map_fst_toList_eq_keys, List.map_map]
  refine (List.map_id _).symm.trans (List.map_congr_left fun p hp => ?_)
  have hget := ExtTreeMap.mem_toList_iff_getElem?_eq_some.mp hp
  simp [ExtTreeMap.getD_eq_getD_getElem?, hget]

end ServingObservatory.OrderedMap
