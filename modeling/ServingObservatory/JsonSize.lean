import ServingObservatory.Json

/-!
# How long a canonical text is

The text of an object holds the text of each of its members, and the text of an array
has a byte for each of its elements, so a text with a short length holds few elements.
-/
namespace ServingObservatory.Json
open Std

/-- The value is an object, and the key holds that member. -/
def HasMember (j : Json) (key : Str) (val : Json) : Prop :=
  ∃ members, j = object members ∧ (key, val) ∈ members

theorem mem_setMember_self (key : Str) (val : Json) (members : List (Str × Json)) :
    (key, val) ∈ setMember key val members := by
  induction members with
  | nil => simp [setMember]
  | cons p members ih =>
    unfold setMember
    cases h : compare key p.1 with
    | lt => simp
    | eq => simp [LawfulEqOrd.eq_of_compare h]
    | gt => simp [ih]

theorem mem_setMember_of_ne {key k : Str} {val v : Json} (hne : k ≠ key)
    {members : List (Str × Json)} (h : (k, v) ∈ members) : (k, v) ∈ setMember key val members := by
  induction members with
  | nil => simp at h
  | cons p members ih =>
    unfold setMember
    cases hcmp : compare key p.1 with
    | lt => simp [h]
    | eq =>
      rcases List.mem_cons.mp h with rfl | htail
      · exact absurd (LawfulEqOrd.eq_of_compare hcmp).symm hne
      · simp [htail]
    | gt =>
      rcases List.mem_cons.mp h with rfl | htail
      · simp
      · simp [ih htail]

theorem hasMember_set (j : Json) (key : Str) (val : Json) : (j.set key val).HasMember key val := by
  unfold set
  split
  · exact ⟨_, rfl, mem_setMember_self ..⟩
  · exact ⟨_, rfl, by simp⟩

theorem HasMember.set {j : Json} {k key : Str} {v : Json} (h : j.HasMember k v) (hne : k ≠ key)
    (val : Json) : (j.set key val).HasMember k v := by
  obtain ⟨members, rfl, hmem⟩ := h
  exact ⟨_, rfl, mem_setMember_of_ne hne hmem⟩

theorem HasMember.setAll {j : Json} {k : Str} {v : Json} (h : j.HasMember k v)
    {l : List (Str × Json)} (hne : k ∉ l.map Prod.fst) : (j.setAll l).HasMember k v := by
  induction l generalizing j with
  | nil => exact h
  | cons p l ih =>
    rw [List.map_cons, List.mem_cons, not_or] at hne
    exact ih (h.set hne.1 p.2) hne.2

/-- Keys set once keep their values. -/
theorem hasMember_setAll (j : Json) {l : List (Str × Json)} (hl : (l.map Prod.fst).Nodup)
    {k : Str} {v : Json} (h : (k, v) ∈ l) : (j.setAll l).HasMember k v := by
  induction l generalizing j with
  | nil => simp at h
  | cons p l ih =>
    rw [List.map_cons, List.nodup_cons] at hl
    rcases List.mem_cons.mp h with rfl | htail
    · exact (hasMember_set j k v).setAll hl.1
    · exact ih (j.set p.1 p.2) hl.2 htail

variable [Platform]

theorem length_writeMembers_ge {k : Str} {v : Json} {members : List (Str × Json)}
    (h : (k, v) ∈ members) (first : Bool) :
    (writeJson v).length ≤ (writeMembers first members).length := by
  induction members generalizing first with
  | nil => simp at h
  | cons p members ih =>
    obtain ⟨k', v'⟩ := p
    simp only [writeMembers, List.length_append]
    rcases List.mem_cons.mp h with heq | htail
    · cases heq
      omega
    · have hrest := ih htail false
      omega

theorem HasMember.length_le {j : Json} {k : Str} {v : Json} (h : j.HasMember k v) :
    (writeJson v).length ≤ j.toCanonical.length := by
  obtain ⟨members, rfl, hmem⟩ := h
  have hlen := length_writeMembers_ge hmem true
  simp only [toCanonical, writeJson, List.length_append]
  omega

theorem length_writeItems_ge (items : List Json) :
    items.length ≤ (writeItems false items).length := by
  induction items with
  | nil => simp
  | cons e items ih =>
    have hcomma : (separator false).length = 1 := by decide
    simp only [writeItems, List.length_append, List.length_cons]
    omega

/-- An array has a byte for each element. -/
theorem length_array_ge (items : List Json) : items.length ≤ (writeJson (array items)).length := by
  have hbracket : (lit "[").length = 1 := by decide
  simp only [writeJson, List.length_append]
  cases items with
  | nil => simp
  | cons e items =>
    have hrest := length_writeItems_ge items
    simp only [writeItems, List.length_append, List.length_cons]
    omega

end ServingObservatory.Json
