import Mathlib.Tactic

/-!
# Decoders and what they read

A decoder runs on a state that shows whether it has failed and what input is
unread. It reads a language when its successful runs consume exactly the
spellings of that language. The notion covers plain state monads, whose failures
are flags in the state, and state monads with exceptions.
-/
namespace ServingObservatory.Decoding
variable {σ β ε ε' α γ τ ω : Type} {M : Type → Type}

/-- The successful runs of a monadic program, from a state to a value and a state. -/
class Runs (M : Type → Type) [Monad M] (σ : outParam Type) where
  runs : {α : Type} → M α → σ → α → σ → Prop
  runs_pure : ∀ {α : Type} {a b : α} {s t : σ}, runs (pure a) s b t ↔ b = a ∧ t = s
  runs_bind : ∀ {α γ : Type} {m : M α} {f : α → M γ} {s t : σ} {c : γ},
    runs (m >>= f) s c t ↔ ∃ a u, runs m s a u ∧ runs (f a) u c t
  runs_unique : ∀ {α : Type} {m : M α} {s t u : σ} {a b : α}, runs m s a t → runs m s b u →
    a = b ∧ t = u

export Runs (runs)

instance : Runs (StateM σ) σ where
  runs m s a t := m.run s = (a, t)
  runs_pure := by
    intro α a b s t
    change (a, s) = (b, t) ↔ _
    rw [Prod.mk.injEq, eq_comm, @eq_comm _ s]
  runs_bind := by
    intro α γ m f s t c
    constructor
    · intro h
      exact ⟨(m.run s).1, (m.run s).2, rfl, h⟩
    · rintro ⟨a, u, hm, hf⟩
      rw [StateT.run_bind, hm]
      exact hf
  runs_unique ha hb := Prod.mk.inj (ha.symm.trans hb)

instance : Runs (ExceptT ε (StateM σ)) σ where
  runs m s a t := m.run.run s = (Except.ok a, t)
  runs_pure := by
    intro α a b s t
    change (Except.ok a, s) = (Except.ok b, t) ↔ _
    rw [Prod.mk.injEq, Except.ok.injEq, eq_comm, @eq_comm _ s]
  runs_bind := by
    intro α γ m f s t c
    rw [ExceptT.run_bind, StateT.run_bind]
    constructor
    · intro h
      cases hm : m.run.run s with
      | mk e u =>
        rw [hm] at h
        cases e with
        | ok a => exact ⟨a, u, rfl, h⟩
        | error e => cases h
    · rintro ⟨a, u, hm, hf⟩
      rw [hm]
      exact hf
  runs_unique ha hb :=
    let ⟨hab, htu⟩ := Prod.mk.inj (ha.symm.trans hb)
    ⟨Except.ok.inj hab, htu⟩

theorem runs_lift {m : StateM σ α} {s t : σ} {a : α} :
    runs (liftM m : ExceptT ε (StateM σ) α) s a t ↔ runs m s a t := by
  change (Except.ok (m.run s).1, (m.run s).2) = (Except.ok a, t) ↔ m.run s = (a, t)
  rw [Prod.mk.injEq, Except.ok.injEq]
  constructor
  · rintro ⟨rfl, rfl⟩
    rfl
  · intro h
    rw [h]
    exact ⟨rfl, rfl⟩

theorem not_runs_throw {e : ε} {s t : σ} {a : α} :
    ¬ runs (throw e : ExceptT ε (StateM σ) α) s a t := fun h => by
  cases h

theorem bind_eq_ok {x : Except ε α} {g : α → Except ε γ} {c : γ} :
    (x >>= g) = .ok c ↔ ∃ a, x = .ok a ∧ g a = .ok c := by
  cases x with
  | error e => exact ⟨nofun, fun ⟨_, h, _⟩ => nomatch h⟩
  | ok a => exact ⟨fun h => ⟨a, rfl, h⟩, fun ⟨_, h, hg⟩ => Except.ok.inj h ▸ hg⟩

theorem map_eq_ok {x : Except ε α} {f : α → γ} {c : γ} :
    x.map f = .ok c ↔ ∃ a, x = .ok a ∧ f a = c := by
  cases x with
  | error e => exact ⟨nofun, fun ⟨_, h, _⟩ => nomatch h⟩
  | ok a => simp [Except.map]

theorem mapError_eq_ok {x : Except ε α} {f : ε → ε'} {a : α} :
    x.mapError f = .ok a ↔ x = .ok a := by
  cases x with
  | error e => exact ⟨nofun, nofun⟩
  | ok a => simp [Except.mapError]

theorem mapM_eq_ok {f : α → Except ε γ} {l : List α} {cs : List γ} :
    l.mapM f = .ok cs ↔ List.Forall₂ (fun a c => f a = .ok c) l cs := by
  induction l generalizing cs with
  | nil =>
    rw [List.mapM_nil, List.forall₂_nil_left_iff]
    exact ⟨fun h => (Except.ok.inj h).symm, fun h => h ▸ rfl⟩
  | cons a l ih =>
    rw [List.mapM_cons, List.forall₂_cons_left_iff]
    simp only [bind_eq_ok, ih]
    constructor
    · rintro ⟨c, hc, cs', hcs, h⟩
      exact ⟨c, cs', hc, hcs, (Except.ok.inj h).symm⟩
    · rintro ⟨c, cs', hc, hcs, rfl⟩
      exact ⟨c, hc, cs', hcs, rfl⟩

/-- What a decoder state shows. -/
structure Input (σ β : Type) where
  ok : σ → Prop
  unread : σ → List β

/-- The spellings `spell w` of the valid forms `w`, each read as the value `view w`. -/
def Spelled (valid : ω → Prop) (spell : ω → List β) (view : ω → α) (bs : List β) (a : α) : Prop :=
  ∃ w, valid w ∧ bs = spell w ∧ a = view w

/-- The program reads exactly the language: a run that has not failed consumed a
spelling of its value, and every spelling is read as its value. -/
structure Reads [Monad M] [Runs M σ] (I : Input σ β) (m : M α) (L : List β → α → Prop) : Prop where
  sound : ∀ {s t a}, runs m s a t → I.ok t → I.ok s ∧ ∃ bs, L bs a ∧ I.unread s = bs ++ I.unread t
  complete : ∀ {s bs rest a}, I.ok s → L bs a → I.unread s = bs ++ rest →
    ∃ t, runs m s a t ∧ I.ok t ∧ I.unread t = rest

namespace Reads
variable [Monad M] [Runs M σ] {I : Input σ β} {m : M α} {L L' : List β → α → Prop}

theorem congr (h : Reads I m L) (hL : ∀ bs a, L bs a ↔ L' bs a) : Reads I m L' := by
  obtain rfl : L = L' := funext₂ fun bs a => propext (hL bs a)
  exact h

theorem pure (a : α) : Reads I (Pure.pure a : M α) (fun bs b => bs = [] ∧ b = a) where
  sound := by
    intro s t b hrun hok
    obtain ⟨rfl, rfl⟩ := Runs.runs_pure.mp hrun
    exact ⟨hok, [], ⟨rfl, rfl⟩, rfl⟩
  complete := by
    rintro s bs rest b hok ⟨rfl, rfl⟩ hs
    exact ⟨s, Runs.runs_pure.mpr ⟨rfl, rfl⟩, hok, hs⟩

/-- The forms of a sequence are read one after the other. -/
theorem bind {valid : ω → Prop} {spell : ω → List β} {view : ω → α} {f : α → M γ}
    {K : α → List β → γ → Prop} (hm : Reads I m (Spelled valid spell view))
    (hf : ∀ a, Reads I (f a) (K a)) : Reads I (m >>= f) (fun bs c =>
      ∃ w, valid w ∧ ∃ tail, bs = spell w ++ tail ∧ K (view w) tail c) where
  sound := by
    intro s t c hrun hok
    obtain ⟨a, u, hrunm, hrunf⟩ := Runs.runs_bind.mp hrun
    obtain ⟨hoku, tail, hK, hu⟩ := (hf a).sound hrunf hok
    obtain ⟨hoks, bs, ⟨w, hw, rfl, rfl⟩, hs⟩ := hm.sound hrunm hoku
    exact ⟨hoks, spell w ++ tail, ⟨w, hw, tail, rfl, hK⟩, by rw [hs, hu, List.append_assoc]⟩
  complete := by
    rintro s bs rest c hok ⟨w, hw, tail, rfl, hK⟩ hs
    obtain ⟨u, hrunm, hoku, hu⟩ := hm.complete hok ⟨w, hw, rfl, rfl⟩
      (by rw [hs, List.append_assoc])
    obtain ⟨t, hrunf, hokt, ht⟩ := (hf _).complete hoku hK hu
    exact ⟨t, Runs.runs_bind.mpr ⟨_, u, hrunm, hrunf⟩, hokt, ht⟩

/-- The forms of a language under another name. -/
theorem reindex {ω' : Type} {valid : ω → Prop} {spell : ω → List β} {view : ω → α}
    {valid' : ω' → Prop} {spell' : ω' → List β} {view' : ω' → α}
    (hm : Reads I m (Spelled valid spell view)) (c : ω → ω')
    (hvalid : ∀ w', valid' w' ↔ ∃ w, valid w ∧ c w = w')
    (hspell : ∀ w, spell' (c w) = spell w) (hview : ∀ w, view' (c w) = view w) :
    Reads I m (Spelled valid' spell' view') := by
  refine hm.congr fun bs a => ?_
  constructor
  · rintro ⟨w, hw, rfl, rfl⟩
    exact ⟨c w, (hvalid _).mpr ⟨w, hw, rfl⟩, (hspell w).symm, (hview w).symm⟩
  · rintro ⟨w', hw', rfl, rfl⟩
    obtain ⟨w, hw, rfl⟩ := (hvalid w').mp hw'
    exact ⟨w, hw, hspell w, hview w⟩

/-- Reading and then converting. -/
theorem bind_pure {valid : ω → Prop} {spell : ω → List β} {view : ω → α}
    (hm : Reads I m (Spelled valid spell view)) (f : α → γ) :
    Reads I (m >>= fun a => Pure.pure (f a)) (Spelled valid spell fun w => f (view w)) :=
  (hm.bind fun a => pure (f a)).congr fun bs c => by simp [Spelled]

/-- A conditional section that is skipped reads as the default form. -/
theorem ite_pure {valid : ω → Prop} {spell : ω → List β} {view : ω → α}
    (hm : Reads I m (Spelled valid spell view)) (c : Bool) (w₀ : ω) :
    Reads I (if c then m else Pure.pure (view w₀))
      (Spelled (fun w => (c = true → valid w) ∧ (c = false → w = w₀))
        (fun w => if c then spell w else []) view) := by
  cases c with
  | true => exact hm.congr fun bs a => by simp [Spelled]
  | false => exact (pure (view w₀)).congr fun bs a => by simp [Spelled]

theorem lift {m : StateM σ α} (h : Reads I m L) :
    Reads I (liftM m : ExceptT ε (StateM σ) α) L where
  sound hrun hok := h.sound (runs_lift.mp hrun) hok
  complete hok hL hs :=
    let ⟨t, hrun, ht⟩ := h.complete hok hL hs
    ⟨t, runs_lift.mpr hrun, ht⟩

/-- A check that throws reads nothing and passes when its condition fails. -/
theorem throw_if (c : Bool) (e : ε) :
    Reads I (if c then throw e else Pure.pure () : ExceptT ε (StateM σ) Unit)
      (Spelled (fun _ : Unit => c = false) (fun _ => []) id) := by
  cases c with
  | true =>
    refine ⟨fun hrun => absurd hrun not_runs_throw, ?_⟩
    rintro s bs rest a - ⟨w, hw, -⟩
    cases hw
  | false => exact (pure ()).congr fun bs a => by simp [Spelled]

/-- Another wording of the errors. -/
theorem adapt {m : ExceptT ε (StateM σ) α} (h : Reads I m L) (f : ε → ε') :
    Reads I (m.adapt f) L := by
  have hruns : ∀ {s t a}, runs (m.adapt f) s a t ↔ runs m s a t := by
    intro s t a
    change ((m.run.run s).1.mapError f, (m.run.run s).2) = (Except.ok a, t) ↔
      m.run.run s = (Except.ok a, t)
    rcases m.run.run s with ⟨e | b, u⟩
    · exact iff_of_false nofun nofun
    · constructor <;> (rintro ⟨⟩; rfl)
  exact ⟨fun hrun => h.sound (hruns.mp hrun), fun hok hL hs =>
    let ⟨t, hrun, ht⟩ := h.complete hok hL hs
    ⟨t, hruns.mpr hrun, ht⟩⟩

/-- A result that was computed without reading. -/
theorem ofResult (e : Except ε α) :
    Reads I (ExceptT.mk (Pure.pure e) : ExceptT ε (StateM σ) α)
      (fun bs a => bs = [] ∧ e = .ok a) := by
  cases e with
  | error e =>
    refine ⟨fun hrun => absurd hrun not_runs_throw, ?_⟩
    rintro s bs rest a - ⟨-, h⟩
    cases h
  | ok b => exact (pure b).congr fun bs a => by rw [Except.ok.injEq, eq_comm (a := b)]

end Reads

/-- A decoder that is run a number of times, with a state folded over its values. -/
def readEach [Monad M] (m : τ → M α) (next : τ → α → τ) : ℕ → τ → M τ
  | 0, t => pure t
  | n + 1, t => m t >>= fun a => readEach m next n (next t a)

/-- Forms that are valid one after the other, each in the state that those before it leave. -/
def Along (valid : τ → ω → Prop) (view : ω → α) (next : τ → α → τ) : τ → List ω → Prop
  | _, [] => True
  | t, w :: l => valid t w ∧ Along valid view next (next t (view w)) l

theorem Reads.each [Monad M] [Runs M σ] {I : Input σ β} {m : τ → M α} {valid : τ → ω → Prop}
    {spell : ω → List β} {view : ω → α} (h : ∀ t, Reads I (m t) (Spelled (valid t) spell view))
    (next : τ → α → τ) (n : ℕ) (t : τ) : Reads I (readEach m next n t)
      (Spelled (fun l => l.length = n ∧ Along valid view next t l) (List.flatMap spell)
        fun l => (l.map view).foldl next t) := by
  induction n generalizing t with
  | zero =>
    refine (Reads.pure t).congr fun bs a => ?_
    constructor
    · rintro ⟨rfl, rfl⟩
      exact ⟨[], ⟨rfl, trivial⟩, rfl, rfl⟩
    · rintro ⟨l, ⟨hl, -⟩, rfl, rfl⟩
      obtain rfl := List.length_eq_zero_iff.mp hl
      exact ⟨rfl, rfl⟩
  | succ n ih =>
    refine ((h t).bind fun a => ih (next t a)).congr fun bs a => ?_
    constructor
    · rintro ⟨w, hw, tail, rfl, l, ⟨hl, halong⟩, rfl, rfl⟩
      exact ⟨w :: l, ⟨congrArg _ hl, hw, halong⟩, rfl, rfl⟩
    · rintro ⟨l, ⟨hl, halong⟩, rfl, rfl⟩
      cases l with
      | nil => cases hl
      | cons w l => exact ⟨w, halong.1, _, rfl, l, ⟨Nat.succ.inj hl, halong.2⟩, rfl, rfl⟩

/-- Values that are collected in order. -/
theorem Reads.each_concat [Monad M] [Runs M σ] {I : Input σ β} {m : M α} {valid : ω → Prop}
    {spell : ω → List β} {view : ω → α} (h : Reads I m (Spelled valid spell view)) (n : ℕ) :
    Reads I (readEach (fun _ => m) (fun l a => l ++ [a]) n [])
      (Spelled (fun l => l.length = n ∧ ∀ w ∈ l, valid w) (List.flatMap spell)
        (List.map view)) := by
  have halong : ∀ (t : List α) (l : List ω),
      Along (fun _ => valid) view (fun l a => l ++ [a]) t l ↔ ∀ w ∈ l, valid w := by
    intro t l
    induction l generalizing t with
    | nil => exact iff_of_true trivial nofun
    | cons w l ih => exact (and_congr_right' (ih _)).trans List.forall_mem_cons.symm
  have hfold : ∀ l t : List α, l.foldl (fun l a => l ++ [a]) t = t ++ l := by
    intro l
    induction l with
    | nil => simp
    | cons a l ih => simp [ih]
  refine (Reads.each (fun _ => h) _ n []).congr fun bs a => ?_
  simp only [Spelled, halong, hfold, List.nil_append]

/-- No valid spelling followed by anything is another one followed by anything. -/
def PrefixCode (valid : ω → Prop) (spell : ω → List β) : Prop :=
  ∀ {w w' r r'}, valid w → valid w' → spell w ++ r = spell w' ++ r' → w = w' ∧ r = r'

/-- A language that some decoder reads without loss is a prefix code. -/
theorem Reads.prefixCode [Monad M] [Runs M σ] {I : Input σ β} {m : M α} {valid : ω → Prop}
    {spell : ω → List β} {view : ω → α} (h : Reads I m (Spelled valid spell view))
    (hview : view.Injective) (hI : ∀ bs, ∃ s, I.ok s ∧ I.unread s = bs) :
    PrefixCode valid spell := by
  intro w w' r r' hw hw' heq
  obtain ⟨s, hok, hs⟩ := hI (spell w ++ r)
  obtain ⟨t, hrun, -, ht⟩ := h.complete hok ⟨w, hw, rfl, rfl⟩ hs
  obtain ⟨t', hrun', -, ht'⟩ := h.complete hok ⟨w', hw', rfl, rfl⟩ (hs.trans heq)
  obtain ⟨hww, htt⟩ := Runs.runs_unique hrun hrun'
  exact ⟨hview hww, by rw [← ht, htt, ht']⟩

/-- Lists of equally many forms are spelled differently. -/
theorem PrefixCode.flatMap {valid : ω → Prop} {spell : ω → List β} (h : PrefixCode valid spell)
    {l l' : List ω} {r r' : List β} (hlen : l.length = l'.length) (hl : ∀ w ∈ l, valid w)
    (hl' : ∀ w ∈ l', valid w) (heq : l.flatMap spell ++ r = l'.flatMap spell ++ r') :
    l = l' ∧ r = r' := by
  induction l generalizing l' with
  | nil =>
    obtain rfl := List.length_eq_zero_iff.mp hlen.symm
    exact ⟨rfl, heq⟩
  | cons w l ih =>
    cases l' with
    | nil => cases hlen
    | cons w' l' =>
      simp only [List.flatMap_cons, List.append_assoc] at heq
      obtain ⟨rfl, htail⟩ := h (hl w List.mem_cons_self) (hl' w' List.mem_cons_self) heq
      obtain ⟨rfl, rfl⟩ := ih (Nat.succ.inj hlen) (fun x hx => hl x (List.mem_cons_of_mem _ hx))
        (fun x hx => hl' x (List.mem_cons_of_mem _ hx)) htail
      exact ⟨rfl, rfl⟩

/-- Without their number, lists of forms of a code without the empty word are spelled
differently. -/
theorem PrefixCode.flatMap_inj {valid : ω → Prop} {spell : ω → List β} (h : PrefixCode valid spell)
    (hne : ∀ w, spell w ≠ []) {l l' : List ω} (hl : ∀ w ∈ l, valid w) (hl' : ∀ w ∈ l', valid w)
    (heq : l.flatMap spell = l'.flatMap spell) : l = l' := by
  induction l generalizing l' with
  | nil =>
    cases l' with
    | nil => rfl
    | cons w' l' => exact absurd (List.append_eq_nil_iff.mp heq.symm).1 (hne w')
  | cons w l ih =>
    cases l' with
    | nil => exact absurd (List.append_eq_nil_iff.mp heq).1 (hne w)
    | cons w' l' =>
      obtain ⟨rfl, htail⟩ := h (hl w List.mem_cons_self) (hl' w' List.mem_cons_self) heq
      rw [ih (fun x hx => hl x (List.mem_cons_of_mem _ hx))
        (fun x hx => hl' x (List.mem_cons_of_mem _ hx)) htail]

end ServingObservatory.Decoding
