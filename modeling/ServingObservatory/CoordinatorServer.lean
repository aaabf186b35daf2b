import Mathlib.Data.List.Basic
import Mathlib.Logic.Function.Basic
import Mathlib.Logic.Relation
import Mathlib.Tactic

/-!
# Starting and stopping the server

`start` begins a thread that accepts connections and gives each a thread of its own. `stop` may be
called by several threads, the destructor among them. One call alone finds the server running. It
closes the listener and joins the accepting thread before it takes the mutex of the clients, so
that it waits for every client that was ever accepted. What the threads of the clients do is a
parameter.
-/
namespace ServingObservatory
open Relation

/-- The threads of the clients on a shared state: how one begins, how the one of a number goes on,
with the request to stop as it reads it, and when it has ended. -/
structure ClientHandler (γ τ : Type*) where
  starts : τ → Prop
  step : ℕ → Bool → γ × τ → γ × τ → Prop
  ended : τ → Prop
  not_step_of_ended : ∀ {j : ℕ} {stop : Bool} {c c' : γ} {t t' : τ}, ended t →
    ¬ step j stop (c, t) (c', t')

/-- Where the accepting thread is in `accept_loop`. -/
inductive AcceptorPhase (τ : Type*)
  | testing
  | accepting
  | failed
  | retrying
  | connected (t : τ)
  | emplacing (t : τ)
  | unlocking
  | left

/-- The accepting thread holds the mutex of the clients. -/
def AcceptorPhase.Holds {τ : Type*} : AcceptorPhase τ → Prop
  | emplacing _ | unlocking => True
  | _ => False

/-- Where a thread is in `stop`. -/
inductive StopPhase
  | idle
  | requesting
  | closing
  | joiningAcceptor
  | locking
  | joiningClients (k : ℕ)
  | returned (stopped : Bool)
  deriving DecidableEq

/-- The call has found the server running. -/
def StopPhase.Won : StopPhase → Prop
  | idle | returned false => False
  | _ => True

/-- The call has joined the accepting thread. -/
def StopPhase.Joined : StopPhase → Prop
  | locking | joiningClients _ | returned true => True
  | _ => False

/-- The call has nothing to do with the clients. -/
def StopPhase.Apart (p : StopPhase) : Prop := (∀ k, p ≠ .joiningClients k) ∧ p ≠ .returned true

/-- Who holds the mutex of the clients: the accepting thread, or a call of `stop`. -/
inductive ClientsOwner (ι : Type*)
  | acceptor
  | stop (i : ι)

/-- The server after `start` has returned. `clients` names the threads that can be joined. -/
structure CoordinatorServer (ι γ τ : Type*) where
  coord : γ
  running : Bool := true
  stopRequested : Bool := false
  listening : Bool := true
  acceptor : AcceptorPhase τ := .testing
  clientsMu : Option (ClientsOwner ι) := none
  clients : List ℕ := []
  threads : List τ := []
  stop : ι → StopPhase := fun _ => .idle

namespace CoordinatorServer
variable {ι γ τ : Type*} [DecidableEq ι]

def setStop (s : CoordinatorServer ι γ τ) (i : ι) (p : StopPhase) : CoordinatorServer ι γ τ :=
  { s with stop := Function.update s.stop i p }

/-- A step of `accept_loop`, of the thread of a client or of a call of `stop`. -/
inductive Step (H : ClientHandler γ τ) : CoordinatorServer ι γ τ → CoordinatorServer ι γ τ → Prop
  | test {s : CoordinatorServer ι γ τ} : s.acceptor = .testing →
      Step H s { s with acceptor := if s.running then .accepting else .left }
  | connect {s : CoordinatorServer ι γ τ} (t : τ) : s.acceptor = .accepting →
      s.listening = true → H.starts t → Step H s { s with acceptor := .connected t }
  | noConnection {s : CoordinatorServer ι γ τ} : s.acceptor = .accepting →
      Step H s { s with acceptor := .failed }
  | readStop {s : CoordinatorServer ι γ τ} : s.acceptor = .failed →
      Step H s { s with acceptor := if s.stopRequested then .left else .retrying }
  | readRunning {s : CoordinatorServer ι γ τ} : s.acceptor = .retrying →
      Step H s { s with acceptor := if s.running then .testing else .left }
  | lockClients {s : CoordinatorServer ι γ τ} (t : τ) : s.acceptor = .connected t →
      s.clientsMu = none → Step H s { s with acceptor := .emplacing t, clientsMu := some .acceptor }
  | emplace {s : CoordinatorServer ι γ τ} (t : τ) : s.acceptor = .emplacing t →
      Step H s
        { s with
          acceptor := .unlocking
          clients := s.clients ++ [s.threads.length]
          threads := s.threads ++ [t] }
  | unlockClients {s : CoordinatorServer ι γ τ} : s.acceptor = .unlocking →
      Step H s { s with acceptor := .testing, clientsMu := none }
  | client {s : CoordinatorServer ι γ τ} (j : ℕ) (t t' : τ) (c : γ) : s.threads[j]? = some t →
      H.step j s.stopRequested (s.coord, t) (c, t') →
      Step H s { s with coord := c, threads := s.threads.set j t' }
  | exchange {s : CoordinatorServer ι γ τ} (i : ι) : s.stop i = .idle →
      Step H s
        { s.setStop i (if s.running then .requesting else .returned false) with running := false }
  | request {s : CoordinatorServer ι γ τ} (i : ι) : s.stop i = .requesting →
      Step H s { s.setStop i .closing with stopRequested := true }
  | close {s : CoordinatorServer ι γ τ} (i : ι) : s.stop i = .closing →
      Step H s { s.setStop i .joiningAcceptor with listening := false }
  | joinAcceptor {s : CoordinatorServer ι γ τ} (i : ι) : s.stop i = .joiningAcceptor →
      s.acceptor = .left → Step H s (s.setStop i .locking)
  | lock {s : CoordinatorServer ι γ τ} (i : ι) : s.stop i = .locking → s.clientsMu = none →
      Step H s { s.setStop i (.joiningClients 0) with clientsMu := some (.stop i) }
  | joinClient {s : CoordinatorServer ι γ τ} (i : ι) (k j : ℕ) (t : τ) :
      s.stop i = .joiningClients k → s.clients[k]? = some j → s.threads[j]? = some t →
      H.ended t → Step H s (s.setStop i (.joiningClients (k + 1)))
  | clear {s : CoordinatorServer ι γ τ} (i : ι) (k : ℕ) : s.stop i = .joiningClients k →
      s.clients[k]? = none →
      Step H s { s.setStop i (.returned true) with clients := [], clientsMu := none }

/-- What holds of the server at any time: one call of `stop` at most has found it running, the
threads of all clients are there to be joined until that call clears them, and what a call has
joined has ended. -/
structure Orderly (H : ClientHandler γ τ) (s : CoordinatorServer ι γ τ) : Prop where
  running : s.running = true → ∀ i, s.stop i = .idle
  one : ∀ i j, (s.stop i).Won → (s.stop j).Won → i = j
  acceptor : ∀ i, (s.stop i).Joined → s.acceptor = .left
  owner : ∀ i, s.clientsMu = some (.stop i) ↔ ∃ k, s.stop i = .joiningClients k
  holds : s.clientsMu = some .acceptor ↔ s.acceptor.Holds
  clients : (∀ i, s.stop i ≠ .returned true) → s.clients = List.range s.threads.length
  joined : ∀ i k, s.stop i = .joiningClients k → ∀ j < k, ∀ t, s.threads[j]? = some t → H.ended t
  returned : ∀ i, s.stop i = .returned true → s.clients = [] ∧ ∀ t ∈ s.threads, H.ended t

variable {H : ClientHandler γ τ} {s s' : CoordinatorServer ι γ τ} {i : ι}

@[simp] theorem stop_setStop (s : CoordinatorServer ι γ τ) (i j : ι) (p : StopPhase) :
    (s.setStop i p).stop j = if j = i then p else s.stop j :=
  Function.update_apply ..

omit [DecidableEq ι] in
theorem orderly_start (H : ClientHandler γ τ) (c : γ) :
    Orderly H ({ coord := c } : CoordinatorServer ι γ τ) where
  running := fun _ _ => rfl
  one := nofun
  acceptor := nofun
  owner := fun _ => ⟨nofun, nofun⟩
  holds := ⟨nofun, fun hholds => hholds.elim⟩
  clients := fun _ => rfl
  joined := nofun
  returned := nofun

omit [DecidableEq ι] in
/-- Before the accepting thread has left, no call has joined it. -/
theorem Orderly.not_joined (h : Orderly H s) (hne : s.acceptor ≠ .left) (j : ι) :
    ¬ (s.stop j).Joined :=
  fun hj => hne (h.acceptor j hj)

omit [DecidableEq ι] in
/-- The accepting thread goes on without the mutex. -/
theorem Orderly.accept (h : Orderly H s) (hne : s.acceptor ≠ .left) (hold : ¬ s.acceptor.Holds)
    {a : AcceptorPhase τ} (ha : ¬ a.Holds) : Orderly H { s with acceptor := a } :=
  { h with
    acceptor := fun j hj => absurd hj (h.not_joined hne j)
    holds := iff_of_false (fun hmu => hold (h.holds.mp hmu)) ha }

omit [DecidableEq ι] in
/-- The accepting thread takes the mutex, or gives it back, while no call of `stop` has it. -/
theorem Orderly.handover (h : Orderly H s) (hne : s.acceptor ≠ .left) {a : AcceptorPhase τ}
    {owner : Option (ClientsOwner ι)} (howner : ∀ i, owner ≠ some (.stop i))
    (hholds : owner = some .acceptor ↔ a.Holds) :
    Orderly H { s with acceptor := a, clientsMu := owner } :=
  { h with
    acceptor := fun j hj => absurd hj (h.not_joined hne j)
    owner := fun j => iff_of_false (howner j) fun ⟨k, hj⟩ =>
      h.not_joined hne j (by rw [hj]; trivial)
    holds := hholds }

omit [DecidableEq ι] in
/-- A client gets its thread. -/
theorem Orderly.emplace (h : Orderly H s) {t : τ} (hacc : s.acceptor = .emplacing t) :
    Orderly H
      { s with
        acceptor := .unlocking
        clients := s.clients ++ [s.threads.length]
        threads := s.threads ++ [t] } where
  running := h.running
  one := h.one
  acceptor := fun j hj => absurd hj (h.not_joined (by simp [hacc]) j)
  owner := h.owner
  holds := by
    rw [h.holds, hacc]
    exact Iff.rfl
  clients := by
    intro hnot
    rw [List.length_append, List.length_singleton, List.range_succ, ← h.clients hnot]
  joined := by
    intro j k hj
    exact absurd (show (s.stop j).Joined by rw [hj]; trivial) (h.not_joined (by simp [hacc]) j)
  returned := by
    intro j hj
    exact absurd (show (s.stop j).Joined by rw [hj]; trivial) (h.not_joined (by simp [hacc]) j)

omit [DecidableEq ι] in
/-- A thread that goes on has not ended, and has not been joined. -/
theorem Orderly.client (h : Orderly H s) {j : ℕ} {t t' : τ} {c : γ} (hj : s.threads[j]? = some t)
    (hstep : H.step j s.stopRequested (s.coord, t) (c, t')) :
    Orderly H { s with coord := c, threads := s.threads.set j t' } where
  running := h.running
  one := h.one
  acceptor := h.acceptor
  owner := h.owner
  holds := h.holds
  clients := by
    intro hnot
    rw [List.length_set]
    exact h.clients hnot
  joined := by
    intro i k hi l hl u hu
    rw [List.getElem?_set] at hu
    split_ifs at hu with hjl
    · subst hjl
      exact absurd hstep (H.not_step_of_ended (h.joined i k hi j hl t hj))
    · exact h.joined i k hi l hl u hu
  returned := by
    intro i hi
    exact absurd hstep (H.not_step_of_ended ((h.returned i hi).2 t (List.mem_of_getElem? hj)))

/-- A call of `stop` goes on apart from the clients. -/
theorem Orderly.setStop (h : Orderly H s) {p : StopPhase} (hold : (s.stop i).Apart) (hp : p.Apart)
    (hwon : p.Won → (s.stop i).Won ∨ ∀ j, ¬ (s.stop j).Won)
    (hjoined : p.Joined → s.acceptor = .left) {running : Bool} (hrunning : running = false)
    (stopRequested listening : Bool) :
    Orderly H
      { s.setStop i p with
        running := running, stopRequested := stopRequested, listening := listening } := by
  have hother : ∀ j q, ¬ q.Apart → (Function.update s.stop i p j = q ↔ s.stop j = q) := by
    intro j q hq
    rw [Function.update_apply]
    split_ifs with hji
    · subst hji
      exact ⟨fun he => absurd (he ▸ hp) hq, fun he => absurd (he ▸ hold) hq⟩
    · rfl
  have hjoining : ∀ k, ¬ (StopPhase.joiningClients k).Apart := fun k hk => hk.1 k rfl
  have hreturned : ¬ (StopPhase.returned true).Apart := fun hr => hr.2 rfl
  refine ⟨fun hrun => ?_, fun j k hj hk => ?_, fun j hj => ?_, fun j => ?_, h.holds,
    fun hnot => ?_, fun j k hj => ?_, fun j hj => ?_⟩
  · exact absurd (hrunning.symm.trans hrun) Bool.false_ne_true
  · simp only [CoordinatorServer.setStop, Function.update_apply] at hj hk
    split_ifs at hj hk with hji hki hki
    · rw [hji, hki]
    · rcases hwon hj with hi | hnone
      · rw [hji, h.one i k hi hk]
      · exact absurd hk (hnone k)
    · rcases hwon hk with hi | hnone
      · rw [hki, h.one j i hj hi]
      · exact absurd hj (hnone j)
    · exact h.one j k hj hk
  · simp only [CoordinatorServer.setStop, Function.update_apply] at hj
    split_ifs at hj with hji
    · exact hjoined hj
    · exact h.acceptor j hj
  · exact (h.owner j).trans (exists_congr fun k => (hother j _ (hjoining k)).symm)
  · exact h.clients fun j hj => hnot j ((hother j _ hreturned).mpr hj)
  · exact h.joined j k ((hother j _ (hjoining k)).mp hj)
  · exact h.returned j ((hother j _ hreturned).mp hj)

/-- The call that has joined the accepting thread takes the mutex. -/
theorem Orderly.lock (h : Orderly H s) (hi : s.stop i = .locking) (hfree : s.clientsMu = none) :
    Orderly H { s.setStop i (.joiningClients 0) with clientsMu := some (.stop i) } := by
  have hwon : (s.stop i).Won := by simp only [hi]; trivial
  have hnone : ∀ j k, s.stop j ≠ .joiningClients k := by
    intro j k hj
    have howner := (h.owner j).mpr ⟨k, hj⟩
    rw [hfree] at howner
    cases howner
  have hnot : ¬ s.acceptor.Holds := fun hacc => by
    have howner := h.holds.mpr hacc
    rw [hfree] at howner
    cases howner
  refine ⟨fun hrun => ?_, fun j k hj hk => ?_, fun j hj => ?_, fun j => ?_,
    iff_of_false (by simp) hnot, fun hnot => ?_, fun j k hj l hl => ?_, fun j hj => ?_⟩
  · exact absurd (h.running hrun i) (by simp [hi])
  · have hone : ∀ j, (Function.update s.stop i (.joiningClients 0) j).Won → j = i := by
      intro j hj
      rw [Function.update_apply] at hj
      split_ifs at hj with hji
      · exact hji
      · exact h.one j i hj hwon
    rw [hone j hj, hone k hk]
  · exact h.acceptor i (by simp only [hi]; trivial)
  · simp only [CoordinatorServer.setStop, Function.update_apply]
    by_cases hji : j = i
    · simp [hji]
    · simp [hji, Ne.symm hji, hnone j]
  · refine h.clients fun j hj => hnot j ?_
    have hji : j ≠ i := by
      rintro rfl
      rw [hi] at hj
      cases hj
    simpa [CoordinatorServer.setStop, hji] using hj
  · have hzero : k = 0 := by
      simp only [CoordinatorServer.setStop, Function.update_apply] at hj
      split_ifs at hj
      · exact (StopPhase.joiningClients.inj hj).symm
      · exact absurd hj (hnone j k)
    omega
  · simp only [CoordinatorServer.setStop, Function.update_apply] at hj
    split_ifs at hj
    exact h.returned j hj

omit [DecidableEq ι] in
/-- While a call joins the clients, their threads are all there. -/
theorem Orderly.joining (h : Orderly H s) {k : ℕ} (hi : s.stop i = .joiningClients k) :
    s.acceptor = .left ∧ s.clientsMu = some (.stop i) ∧ s.clients = List.range s.threads.length ∧
      ∀ j, (s.stop j).Won → j = i := by
  have hwon : (s.stop i).Won := by rw [hi]; trivial
  have hone : ∀ j, (s.stop j).Won → j = i := fun j hj => h.one j i hj hwon
  refine ⟨h.acceptor i (by rw [hi]; trivial), (h.owner i).mpr ⟨k, hi⟩, h.clients fun j hj => ?_, hone⟩
  obtain rfl := hone j (by rw [hj]; trivial)
  rw [hi] at hj
  cases hj

/-- The next client has ended. -/
theorem Orderly.joinClient (h : Orderly H s) {k j : ℕ} {t : τ} (hi : s.stop i = .joiningClients k)
    (hj : s.clients[k]? = some j) (ht : s.threads[j]? = some t) (hended : H.ended t) :
    Orderly H (s.setStop i (.joiningClients (k + 1))) := by
  obtain ⟨hleft, howner, hclients, hone⟩ := h.joining hi
  have hkj : k = j := by
    rw [hclients] at hj
    obtain ⟨hlt, hget⟩ := List.getElem?_eq_some_iff.mp hj
    rw [← hget, List.getElem_range]
  have hwon : ∀ j, ((s.setStop i (.joiningClients (k + 1))).stop j).Won → j = i := by
    intro j hj
    rw [stop_setStop] at hj
    split_ifs at hj with hji
    · exact hji
    · exact hone j hj
  refine ⟨fun hrun => ?_, fun l m hl hm => ?_, fun _ _ => hleft, fun l => ?_, h.holds,
    fun _ => hclients, fun l m hl n hn u hu => ?_, fun l hl => ?_⟩
  · exact absurd (h.running hrun i) (by simp [hi])
  · rw [hwon l hl, hwon m hm]
  · rw [stop_setStop]
    by_cases hli : l = i
    · simp [hli, CoordinatorServer.setStop, howner]
    · rw [if_neg hli]
      exact h.owner l
  · obtain rfl : l = i := hwon l (by rw [hl]; trivial)
    rw [stop_setStop, if_pos rfl] at hl
    obtain rfl := StopPhase.joiningClients.inj hl
    rcases Nat.lt_succ_iff_lt_or_eq.mp hn with hlt | rfl
    · exact h.joined l k hi n hlt u hu
    · have hut : s.threads[n]? = some t := hkj ▸ ht
      obtain rfl := Option.some.inj (hut.symm.trans hu)
      exact hended
  · obtain rfl : l = i := hwon l (by rw [hl]; trivial)
    rw [stop_setStop, if_pos rfl] at hl
    cases hl

/-- All clients have ended, and the call returns. -/
theorem Orderly.clear (h : Orderly H s) {k : ℕ} (hi : s.stop i = .joiningClients k)
    (hk : s.clients[k]? = none) :
    Orderly H { s.setStop i (.returned true) with clients := [], clientsMu := none } := by
  obtain ⟨hleft, howner, hclients, hone⟩ := h.joining hi
  have hlen : s.threads.length ≤ k := by
    rw [hclients, List.getElem?_eq_none_iff, List.length_range] at hk
    exact hk
  have hwon : ∀ j, ((s.setStop i (.returned true)).stop j).Won → j = i := by
    intro j hj
    rw [stop_setStop] at hj
    split_ifs at hj with hji
    · exact hji
    · exact hone j hj
  have hself : (s.setStop i (.returned true)).stop i = .returned true := by simp
  refine ⟨fun hrun => ?_, fun l m hl hm => ?_, fun _ _ => hleft, fun l => ?_,
    iff_of_false nofun (by rw [CoordinatorServer.setStop, hleft]; exact id), fun hnot => ?_,
    fun l m hl => ?_, fun _ _ => ⟨rfl, fun t ht => ?_⟩⟩
  · exact absurd (h.running hrun i) (by simp [hi])
  · rw [hwon l hl, hwon m hm]
  · refine ⟨nofun, fun ⟨m, hm⟩ => ?_⟩
    obtain rfl : l = i := hwon l (by rw [hm]; trivial)
    rw [hself] at hm
    cases hm
  · exact absurd hself (hnot i)
  · obtain rfl : l = i := hwon l (by rw [hl]; trivial)
    rw [hself] at hl
    cases hl
  · obtain ⟨n, hn⟩ := List.mem_iff_getElem?.mp ht
    obtain ⟨hlt, -⟩ := List.getElem?_eq_some_iff.mp hn
    exact h.joined i k hi n (hlt.trans_le hlen) t hn

theorem Orderly.step (h : Orderly H s) (hstep : Step H s s') : Orderly H s' := by
  have hrunning : ∀ i, s.stop i ≠ .idle → s.running = false := by
    intro i hi
    by_contra hrun
    exact hi (h.running (by simpa using hrun) i)
  have hchoice : ∀ (b : Bool) {p q : AcceptorPhase τ}, ¬ p.Holds → ¬ q.Holds →
      ¬ (if b then p else q).Holds := by
    intro b p q hp hq
    cases b
    · exact hq
    · exact hp
  cases hstep with
  | test hacc =>
    exact h.accept (by simp [hacc]) (by rw [hacc]; exact id) (hchoice _ id id)
  | connect t hacc => exact h.accept (by simp [hacc]) (by rw [hacc]; exact id) id
  | noConnection hacc => exact h.accept (by simp [hacc]) (by rw [hacc]; exact id) id
  | readStop hacc =>
    exact h.accept (by simp [hacc]) (by rw [hacc]; exact id) (hchoice _ id id)
  | readRunning hacc =>
    exact h.accept (by simp [hacc]) (by rw [hacc]; exact id) (hchoice _ id id)
  | lockClients t hacc =>
    exact h.handover (by simp [hacc]) nofun (iff_of_true rfl trivial)
  | emplace t hacc => exact h.emplace hacc
  | unlockClients hacc => exact h.handover (by simp [hacc]) nofun (iff_of_false nofun id)
  | client j t t' c hj hclient => exact h.client hj hclient
  | exchange i hi =>
    have hidle : (s.stop i).Apart := by simp [hi, StopPhase.Apart]
    cases hrun : s.running with
    | true =>
      have hnone : ∀ j, ¬ (s.stop j).Won := fun j => by rw [h.running hrun j]; exact id
      exact h.setStop (p := .requesting) hidle (by simp [StopPhase.Apart])
        (fun _ => .inr hnone) (fun hj => hj.elim) rfl _ _
    | false =>
      exact h.setStop (p := .returned false) hidle (by simp [StopPhase.Apart])
        (fun hw => hw.elim) (fun hj => hj.elim) rfl _ _
  | request i hi =>
    exact h.setStop (p := .closing) (by simp [hi, StopPhase.Apart]) (by simp [StopPhase.Apart])
      (fun _ => .inl (by rw [hi]; trivial)) (fun hj => hj.elim) (hrunning i (by simp [hi])) _ _
  | close i hi =>
    exact h.setStop (p := .joiningAcceptor) (by simp [hi, StopPhase.Apart]) (by simp [StopPhase.Apart])
      (fun _ => .inl (by rw [hi]; trivial)) (fun hj => hj.elim) (hrunning i (by simp [hi])) _ _
  | joinAcceptor i hi hacc =>
    exact h.setStop (p := .locking) (by simp [hi, StopPhase.Apart]) (by simp [StopPhase.Apart])
      (fun _ => .inl (by rw [hi]; trivial)) (fun _ => hacc) (hrunning i (by simp [hi])) _ _
  | lock i hi hfree => exact h.lock hi hfree
  | joinClient i k j t hi hj ht hended => exact h.joinClient hi hj ht hended
  | clear i k hi hk => exact h.clear hi hk

theorem orderly_run {c : γ} (hrun : ReflTransGen (Step H) { coord := c } s) : Orderly H s := by
  induction hrun with
  | refl => exact orderly_start H c
  | tail _ hstep ih => exact ih.step hstep

/-- After the call has returned, no step changes the clients or what they share. -/
theorem Orderly.quiet (h : Orderly H s) (hi : s.stop i = .returned true) (hstep : Step H s s') :
    s'.coord = s.coord ∧ s'.threads = s.threads ∧ s'.stop i = .returned true := by
  have hwon : ∀ j, (s.stop j).Won → j = i := fun j hj => h.one j i hj (by rw [hi]; trivial)
  have hleft : s.acceptor = .left := h.acceptor i (by rw [hi]; trivial)
  cases hstep with
  | test hacc | noConnection hacc | readStop hacc | readRunning hacc | unlockClients hacc =>
    rw [hleft] at hacc
    cases hacc
  | connect t hacc | lockClients t hacc | emplace t hacc =>
    rw [hleft] at hacc
    cases hacc
  | client j t t' c hj hclient =>
    exact absurd hclient (H.not_step_of_ended ((h.returned i hi).2 t (List.mem_of_getElem? hj)))
  | exchange j hj =>
    have hji : i ≠ j := by
      rintro rfl
      rw [hi] at hj
      cases hj
    exact ⟨rfl, rfl, by simpa [CoordinatorServer.setStop, hji] using hi⟩
  | request j hj | close j hj | joinAcceptor j hj | lock j hj =>
    obtain rfl := hwon j (by rw [hj]; trivial)
    rw [hi] at hj
    cases hj
  | joinClient j k l t hj | clear j k hj =>
    obtain rfl := hwon j (by rw [hj]; trivial)
    rw [hi] at hj
    cases hj

/-- When the call of `stop` that found the server running has returned, the accepting thread has
left, every client that was ever accepted has ended, and nothing that other threads still do
touches the clients or what they share. -/
theorem quiet_of_returned {c : γ} (hrun : ReflTransGen (Step H) { coord := c } s)
    (hi : s.stop i = .returned true) :
    s.acceptor = .left ∧ s.clients = [] ∧ (∀ t ∈ s.threads, H.ended t) ∧
      ∀ s', ReflTransGen (Step H) s s' → s'.coord = s.coord ∧ s'.threads = s.threads := by
  have h := orderly_run hrun
  refine ⟨h.acceptor i (by rw [hi]; trivial), (h.returned i hi).1, (h.returned i hi).2,
    fun s' hlater => ?_⟩
  have hkept : Orderly H s' ∧ s'.stop i = .returned true ∧ s'.coord = s.coord ∧
      s'.threads = s.threads := by
    induction hlater with
    | refl => exact ⟨h, hi, rfl, rfl⟩
    | tail _ hstep ih =>
      obtain ⟨h', hi', hcoord, hthreads⟩ := ih
      obtain ⟨hc, ht, hret⟩ := h'.quiet hi' hstep
      exact ⟨h'.step hstep, hret, hc.trans hcoord, ht.trans hthreads⟩
  exact hkept.2.2

omit [DecidableEq ι] in
theorem Orderly.mutex_free (h : Orderly H s) (hno : ∀ j k, s.stop j ≠ .joiningClients k)
    (hnot : ¬ s.acceptor.Holds) : s.clientsMu = none := by
  cases hmu : s.clientsMu with
  | none => rfl
  | some owner =>
    cases owner with
    | acceptor => exact absurd (h.holds.mp hmu) hnot
    | stop j =>
      obtain ⟨k, hj⟩ := (h.owner j).mp hmu
      exact absurd hj (hno j k)

/-- The accepting thread can always leave once the server is not running. -/
theorem Orderly.acceptor_leaves (h : Orderly H s) (hrun : s.running = false) :
    ∃ s', ReflTransGen (Step H) s s' ∧ s'.acceptor = .left ∧ s'.stop = s.stop := by
  have htesting : ∀ {u : CoordinatorServer ι γ τ}, u.acceptor = .testing → u.running = false →
      ReflTransGen (Step H) u { u with acceptor := .left } := by
    intro u hacc hu
    simpa [hu] using ReflTransGen.single (Step.test (H := H) hacc)
  have hfailed : ∀ {u : CoordinatorServer ι γ τ}, u.acceptor = .failed → u.running = false →
      ReflTransGen (Step H) u { u with acceptor := .left } := by
    intro u hacc hu
    by_cases hstop : u.stopRequested = true
    · simpa [hstop] using ReflTransGen.single (Step.readStop (H := H) hacc)
    · have hretry : ReflTransGen (Step H) u { u with acceptor := .retrying } := by
        simpa [hstop] using ReflTransGen.single (Step.readStop (H := H) hacc)
      refine hretry.trans ?_
      simpa [hu] using ReflTransGen.single
        (Step.readRunning (H := H) (s := { u with acceptor := .retrying }) rfl)
  have hunlocking : ∀ {u : CoordinatorServer ι γ τ}, u.acceptor = .unlocking → u.running = false →
      ReflTransGen (Step H) u { u with acceptor := .left, clientsMu := none } := by
    intro u hacc hu
    have hunlock := ReflTransGen.single (Step.unlockClients (H := H) hacc)
    exact hunlock.trans (htesting rfl hu)
  cases hacc : s.acceptor with
  | testing => exact ⟨_, htesting hacc hrun, rfl, rfl⟩
  | accepting =>
    have hfail := ReflTransGen.single (Step.noConnection (H := H) hacc)
    exact ⟨_, hfail.trans (hfailed rfl hrun), rfl, rfl⟩
  | failed => exact ⟨_, hfailed hacc hrun, rfl, rfl⟩
  | retrying =>
    have hread := ReflTransGen.single (Step.readRunning (H := H) hacc)
    rw [hrun] at hread
    exact ⟨_, hread, rfl, rfl⟩
  | connected t =>
    have hfree : s.clientsMu = none := by
      refine h.mutex_free (fun j k hj => ?_) (by rw [hacc]; exact id)
      exact h.not_joined (by simp [hacc]) j (by rw [hj]; trivial)
    have hlock := ReflTransGen.single (Step.lockClients (H := H) t hacc hfree)
    exact ⟨_, (hlock.tail (.emplace t rfl)).trans (hunlocking rfl hrun), rfl, rfl⟩
  | emplacing t =>
    have hemplace := ReflTransGen.single (Step.emplace (H := H) t hacc)
    exact ⟨_, hemplace.trans (hunlocking rfl hrun), rfl, rfl⟩
  | unlocking => exact ⟨_, hunlocking hacc hrun, rfl, rfl⟩
  | left => exact ⟨s, .refl, hacc, rfl⟩

omit [DecidableEq ι] in
theorem set_threads_self {j : ℕ} {t : τ} (hj : s.threads[j]? = some t) :
    { s with coord := s.coord, threads := s.threads.set j t } = s := by
  have hthreads : s.threads.set j t = s.threads := by
    refine List.ext_getElem? fun k => ?_
    rw [List.getElem?_set]
    split_ifs with hjk hlt
    · rw [← hjk, hj]
    · rw [← hjk, List.getElem?_eq_none_iff.mpr (Nat.le_of_not_lt hlt)]
    · rfl
  rw [hthreads]

/-- A client's thread goes on alone. -/
theorem client_goes_on {j : ℕ} {t : τ} {x : γ × τ} (hj : s.threads[j]? = some t)
    (hx : ReflTransGen (H.step j s.stopRequested) (s.coord, t) x) :
    ReflTransGen (Step H) s { s with coord := x.1, threads := s.threads.set j x.2 } := by
  obtain ⟨hlt, -⟩ := List.getElem?_eq_some_iff.mp hj
  induction hx with
  | refl =>
    rw [set_threads_self hj]
  | @tail y z _ hstep ih =>
    have hclient := Step.client (H := H)
      (s := { s with coord := y.1, threads := s.threads.set j y.2 }) j y.2 z.2 z.1 (by simp [hlt])
      hstep
    simp only [List.set_set] at hclient
    exact ih.tail hclient

/-- What every client's thread can do: come to its end. -/
def CanEnd (H : ClientHandler γ τ) : Prop :=
  ∀ j stop c t, ∃ x, ReflTransGen (H.step j stop) (c, t) x ∧ H.ended x.2

theorem orderly_later (h : Orderly H s) (hrun : ReflTransGen (Step H) s s') : Orderly H s' := by
  induction hrun with
  | refl => exact h
  | tail _ hstep ih => exact ih.step hstep

/-- The call that joins the clients can join them all and return. -/
theorem Orderly.joins_all (hend : CanEnd H) (m : ℕ) (h : Orderly H s) {k : ℕ}
    (hi : s.stop i = .joiningClients k) (hm : s.clients.length ≤ k + m) :
    ∃ s', ReflTransGen (Step H) s s' ∧ s'.stop i = .returned true := by
  induction m generalizing s k with
  | zero =>
    have hclear := Step.clear (H := H) i k hi (List.getElem?_eq_none_iff.mpr hm)
    exact ⟨_, .single hclear, by simp⟩
  | succ m ih =>
    obtain ⟨-, -, hclients, -⟩ := h.joining hi
    by_cases hk : k < s.threads.length
    · obtain ⟨x, hx, hended⟩ := hend k s.stopRequested s.coord s.threads[k]
      have hrun := client_goes_on (List.getElem?_eq_getElem hk) hx
      have h' := orderly_later h hrun
      have hclient : s.clients[k]? = some k := by
        rw [hclients, List.getElem?_range hk]
      have hthread : (s.threads.set k x.2)[k]? = some x.2 := by simp [hk]
      have hjoin := Step.joinClient (H := H) i k k x.2 (s := { s with
        coord := x.1, threads := s.threads.set k x.2 }) hi hclient hthread hended
      obtain ⟨s', hlater, hreturned⟩ := ih (h'.joinClient hi hclient hthread hended)
        (k := k + 1) (by simp) (by rw [CoordinatorServer.setStop]; dsimp only; omega)
      exact ⟨s', (hrun.tail hjoin).trans hlater, hreturned⟩
    · have hnone : s.clients[k]? = none := by
        rw [hclients, List.getElem?_eq_none_iff, List.length_range]
        exact Nat.le_of_not_lt hk
      exact ⟨_, .single (.clear i k hi hnone), by simp⟩

/-- Nobody but the one call joins the clients, so that it gets the mutex. -/
theorem Orderly.locks (h : Orderly H s) (hend : CanEnd H) (hi : s.stop i = .locking) :
    ∃ s', ReflTransGen (Step H) s s' ∧ s'.stop i = .returned true := by
  have hfree : s.clientsMu = none := by
    refine h.mutex_free (fun j k hj => ?_) (by rw [h.acceptor i (by rw [hi]; trivial)]; exact id)
    obtain rfl := h.one j i (by rw [hj]; trivial) (by rw [hi]; trivial)
    rw [hi] at hj
    cases hj
  have hlocked : (s.setStop i (.joiningClients 0)).stop i = .joiningClients 0 := by simp
  obtain ⟨s', hrun, hreturned⟩ :=
    (h.lock hi hfree).joins_all hend s.clients.length (i := i) hlocked (Nat.le_add_left _ _)
  exact ⟨s', hrun.head (.lock i hi hfree), hreturned⟩

/-- The accepting thread leaves and is joined. -/
theorem Orderly.joins_acceptor (h : Orderly H s) (hend : CanEnd H)
    (hi : s.stop i = .joiningAcceptor) :
    ∃ s', ReflTransGen (Step H) s s' ∧ s'.stop i = .returned true := by
  have hrunning : s.running = false := by
    by_contra hrun
    have hidle := h.running (by simpa using hrun) i
    rw [hi] at hidle
    cases hidle
  obtain ⟨s₁, hleave, hleft, hstop⟩ := h.acceptor_leaves hrunning
  have h₁ := orderly_later h hleave
  have hjoin := Step.joinAcceptor (H := H) i (hstop ▸ hi) hleft
  obtain ⟨s', hrun, hreturned⟩ := (h₁.step hjoin).locks hend (i := i) (by simp)
  exact ⟨s', (hleave.tail hjoin).trans hrun, hreturned⟩

/-- A call of `stop` that has found the server running is never stuck: whatever was done before, it
can come to its end, if the threads of the clients can. -/
theorem exists_returned (hend : CanEnd H) {c : γ}
    (hrun : ReflTransGen (Step H) { coord := c } s) (hi : (s.stop i).Won) :
    ∃ s', ReflTransGen (Step H) s s' ∧ s'.stop i = .returned true := by
  have h := orderly_run hrun
  have hclosing : ∀ {u : CoordinatorServer ι γ τ}, Orderly H u → u.stop i = .closing →
      ∃ s', ReflTransGen (Step H) u s' ∧ s'.stop i = .returned true := by
    intro u hu hui
    have hclose := Step.close (H := H) i hui
    obtain ⟨s', hlater, hreturned⟩ :=
      (hu.step hclose).joins_acceptor hend (i := i) (stop_setStop u i i _ |>.trans (if_pos rfl))
    exact ⟨s', hlater.head hclose, hreturned⟩
  cases hp : s.stop i with
  | idle =>
    rw [hp] at hi
    exact hi.elim
  | requesting =>
    have hrequest := Step.request (H := H) i hp
    obtain ⟨s', hlater, hreturned⟩ :=
      hclosing (h.step hrequest) (stop_setStop s i i _ |>.trans (if_pos rfl))
    exact ⟨s', hlater.head hrequest, hreturned⟩
  | closing => exact hclosing h hp
  | joiningAcceptor => exact h.joins_acceptor hend hp
  | locking => exact h.locks hend hp
  | joiningClients k => exact h.joins_all hend s.clients.length hp (Nat.le_add_left _ _)
  | returned stopped =>
    cases stopped with
    | true => exact ⟨s, .refl, hp⟩
    | false =>
      rw [hp] at hi
      exact hi.elim

end CoordinatorServer
end ServingObservatory
