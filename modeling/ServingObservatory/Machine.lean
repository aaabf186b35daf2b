import Mathlib.Tactic

/-!
# Deterministic machines, their runs and their histories

A machine consumes one input at a time and answers each with one output. The
trace of a run pairs every input with the output it received, so that an
invariant may relate the state reached to the whole history that led to it.
-/
namespace ServingObservatory

/-- The next state and the output for each input. -/
structure Machine (σ ι ο : Type*) where
  step : σ → ι → σ × ο

namespace Machine
variable {σ ι ο : Type*} (M : Machine σ ι ο)

def next (s : σ) (i : ι) : σ := (M.step s i).1

def out (s : σ) (i : ι) : ο := (M.step s i).2

def run (s : σ) (inputs : List ι) : σ := inputs.foldl M.next s

def trace (M : Machine σ ι ο) (s : σ) : List ι → List (ι × ο)
  | [] => []
  | i :: inputs => (i, M.out s i) :: trace M (M.next s i) inputs

@[simp] theorem run_nil (s : σ) : M.run s [] = s := rfl

@[simp] theorem run_cons (s : σ) (i : ι) (inputs : List ι) :
    M.run s (i :: inputs) = M.run (M.next s i) inputs := rfl

@[simp] theorem run_append (s : σ) (first second : List ι) :
    M.run s (first ++ second) = M.run (M.run s first) second := List.foldl_append

@[simp] theorem trace_nil (s : σ) : M.trace s [] = [] := rfl

@[simp] theorem trace_cons (s : σ) (i : ι) (inputs : List ι) :
    M.trace s (i :: inputs) = (i, M.out s i) :: M.trace (M.next s i) inputs := rfl

@[simp] theorem trace_append (s : σ) (first second : List ι) :
    M.trace s (first ++ second) = M.trace s first ++ M.trace (M.run s first) second := by
  induction first generalizing s with
  | nil => rfl
  | cons i first ih => simp [ih]

@[simp] theorem trace_map_fst (s : σ) (inputs : List ι) :
    (M.trace s inputs).map Prod.fst = inputs := by
  induction inputs generalizing s with
  | nil => rfl
  | cons i inputs ih => simp [ih]

/-- A property of the history and of the state reached holds along every run
when one more step preserves it. -/
theorem history_induction {I : List (ι × ο) → σ → Prop} {s : σ} (h₀ : I [] s)
    (hstep : ∀ t s' i, I t s' → I (t ++ [(i, M.out s' i)]) (M.next s' i)) (inputs : List ι) :
    I (M.trace s inputs) (M.run s inputs) := by
  induction inputs using List.reverseRecOn with
  | nil => exact h₀
  | append_singleton inputs i ih => simpa using hstep _ _ i ih

/-- A step invariant whose preservation needs a condition on the input holds at
the end of every run whose inputs all meet the condition where they occur. -/
theorem run_invariant_of_guard {I : List ι → σ → Prop} {guard : List ι → σ → ι → Prop} {s : σ}
    (h₀ : I [] s)
    (hstep : ∀ before s' i, I before s' → guard before s' i → I (before ++ [i]) (M.next s' i))
    (inputs : List ι)
    (hguard : ∀ before i after, inputs = before ++ i :: after → guard before (M.run s before) i) :
    I inputs (M.run s inputs) := by
  induction inputs using List.reverseRecOn with
  | nil => exact h₀
  | append_singleton inputs i ih =>
    have hinputs := ih fun before j after hb => hguard before j (after ++ [i]) (by simp [hb])
    simpa using hstep inputs _ i hinputs (hguard inputs i [] rfl)

/-- A machine that takes every step on an image of the state takes every run on it. -/
theorem map_run {σ' ο' : Type*} {M' : Machine σ' ι ο'} {f : σ → σ'} {g : ο → ο'} {I : σ → Prop}
    (hI : ∀ s i, I s → I (M.next s i))
    (hstep : ∀ s i, I s → M'.step (f s) i = (f (M.next s i), g (M.out s i))) {s : σ} (hs : I s)
    (inputs : List ι) : M'.run (f s) inputs = f (M.run s inputs) ∧
      M'.trace (f s) inputs = (M.trace s inputs).map fun p => (p.1, g p.2) := by
  induction inputs generalizing s with
  | nil => exact ⟨rfl, rfl⟩
  | cons i inputs ih =>
    have hnext : M'.next (f s) i = f (M.next s i) := congrArg Prod.fst (hstep s i hs)
    have hout : M'.out (f s) i = g (M.out s i) := congrArg Prod.snd (hstep s i hs)
    obtain ⟨hrun, htrace⟩ := ih (hI s i hs)
    constructor
    · rw [run_cons, hnext, hrun, run_cons]
    · rw [trace_cons, hnext, hout, htrace, trace_cons, List.map_cons]

/-- The inputs of a run whose input-output pair satisfies `keep`. -/
def kept (keep : ι × ο → Bool) (s : σ) (inputs : List ι) : List ι :=
  ((M.trace s inputs).filter keep).map Prod.fst

theorem kept_cons (keep : ι × ο → Bool) (s : σ) (i : ι) (inputs : List ι) :
    M.kept keep s (i :: inputs) =
      if keep (i, M.out s i) then i :: M.kept keep (M.next s i) inputs
      else M.kept keep (M.next s i) inputs := by
  simp only [kept, trace_cons, List.filter_cons]
  split <;> rfl

theorem exists_of_forall₂ {α β : Type*} {R : α → β → Prop} {l : List α} {l' : List β}
    (h : List.Forall₂ R l l') {b : β} (hb : b ∈ l') : ∃ a ∈ l, R a b := by
  induction h with
  | nil => cases hb
  | cons hab _ ih =>
    rcases List.mem_cons.mp hb with rfl | hmem
    · exact ⟨_, List.mem_cons_self, hab⟩
    · obtain ⟨a, ha, hR⟩ := ih hmem
      exact ⟨a, List.mem_cons_of_mem _ ha, hR⟩

/-- Erasure: when dropped steps are invisible to `R` and kept steps are answered
alike in `R`-related states, the run without the dropped inputs stays related
and keeps every answer. -/
theorem erase_run {R : σ → σ → Prop} {keep : ι × ο → Bool} {same : ο → ο → Prop}
    (hdrop : ∀ s t i, R s t → keep (i, M.out s i) = false → R (M.next s i) t)
    (hkeep : ∀ s t i, R s t → keep (i, M.out s i) = true →
      R (M.next s i) (M.next t i) ∧ same (M.out s i) (M.out t i))
    {s t : σ} (hst : R s t) (inputs : List ι) :
    R (M.run s inputs) (M.run t (M.kept keep s inputs)) ∧
      List.Forall₂ (fun p q => p.1 = q.1 ∧ same p.2 q.2)
        ((M.trace s inputs).filter keep) (M.trace t (M.kept keep s inputs)) := by
  induction inputs generalizing s t with
  | nil => exact ⟨hst, .nil⟩
  | cons i inputs ih =>
    rw [kept_cons, trace_cons, List.filter_cons]
    cases hk : keep (i, M.out s i) with
    | false => simpa using ih (hdrop s t i hst hk)
    | true =>
      obtain ⟨hnext, hsame⟩ := hkeep s t i hst hk
      obtain ⟨hrun, htrace⟩ := ih hnext
      exact ⟨by simpa using hrun, by simpa using ⟨hsame, htrace⟩⟩

end Machine
end ServingObservatory
