import ServingObservatory.ServedClients

/-!
# A server that is stopped

A thread of a client always comes back to its read, where a timeout or the end of the stream lets it
end. So the call of `stop` that has found the server running can always return. Once it has, the
coordinator stays as it is.
-/
namespace ServingObservatory
open Relation

/-- How many steps there are at most before the thread reads again. -/
def ClientWork.rank : ClientWork → ℕ
  | reading => 0
  | replying .. => 1
  | registered .. => 2
  | status _ read _ => 2 + (4 - read)
  | frame _ => 7

theorem rank_advance (c : SharedCoordinator) (j : ℕ) {w : ClientWork} (hreading : w ≠ .reading)
    (hreplying : ∀ f position reply, w ≠ .replying f position reply) :
    (c.advance j w).2.rank < w.rank := by
  cases w with
  | reading => exact absurd rfl hreading
  | replying f position reply => exact absurd rfl (hreplying f position reply)
  | frame f =>
    simp only [SharedCoordinator.advance]
    cases f.request <;> simp [ClientWork.rank]
  | registered f position auth => simp [SharedCoordinator.advance, ClientWork.rank]
  | status f read sp =>
    simp only [SharedCoordinator.advance]
    cases hnext : sp.readNext c.coordinator read with
    | none =>
      simp only [ClientWork.rank]
      omega
    | some sp' =>
      have hlt : read < 4 := by
        by_contra hge
        obtain ⟨k, rfl⟩ := Nat.exists_eq_add_of_le (Nat.le_of_not_lt hge)
        rw [Nat.add_comm] at hnext
        cases hnext
      simp only [ClientWork.rank]
      omega

namespace ClientThread
variable (j : ℕ) (stop : Bool)

/-- A thread comes back to its read. -/
theorem exists_reading (n : ℕ) (c : SharedCoordinator) {t : ClientThread} (hn : t.work.rank ≤ n) :
    ∃ x, ReflTransGen (Step j stop) (c, t) x ∧ x.2.work = .reading := by
  induction n generalizing c t with
  | zero =>
    cases hwork : t.work with
    | reading => exact ⟨(c, t), .refl, hwork⟩
    | frame | registered | status | replying =>
      rw [hwork] at hn
      simp [ClientWork.rank] at hn
  | succ n ih =>
    by_cases hreading : t.work = .reading
    · exact ⟨(c, t), .refl, hreading⟩
    · by_cases hreplying : ∃ f position reply, t.work = .replying f position reply
      · obtain ⟨f, position, reply, hwork⟩ := hreplying
        cases reply with
        | ok b => exact ⟨_, .single (.send f position b 0 hwork (Nat.zero_le _)), rfl⟩
        | error e => exact ⟨_, .single (.throw f position e hwork), rfl⟩
      · have hnot : ∀ f position reply, t.work ≠ .replying f position reply :=
          fun f position reply hwork => hreplying ⟨f, position, reply, hwork⟩
        have hrank := rank_advance c j hreading hnot
        obtain ⟨x, hrun, hx⟩ := ih (c.advance j t.work).1
          (t := { t with work := (c.advance j t.work).2 }) (by dsimp only; omega)
        exact ⟨x, hrun.head (.advance hreading hnot), hx⟩

/-- Where a timeout leads: out of the loop, or to the probe that may follow it. -/
theorem resume_timeout (loop : ClientLoop) (stop : Bool) :
    loop.resume .timeout stop = { loop with position := .ended } ∨
      ∃ out, loop.position = .reading (.header out) ∧
        loop.resume .timeout stop = { loop with position := .probing } := by
  obtain ⟨position, unread, consumed, dispatched⟩ := loop
  cases position with
  | ended => exact .inl rfl
  | probing => exact .inl rfl
  | reading reader =>
    cases reader with
    | header out =>
      cases stop with
      | true => exact .inl rfl
      | false => exact .inr ⟨out, rfl, rfl⟩
    | body hdr out => exact .inl rfl

/-- A timeout is always possible. -/
theorem recv_timeout (c : SharedCoordinator) {t : ClientThread} (hreading : t.work = .reading)
    (hpos : t.loop.position ≠ .ended) :
    Step j stop (c, t)
      (c, { t with loop := t.loop.resume .timeout stop, taken := c.calls.length }) := by
  obtain ⟨want, hwant⟩ : ∃ n, t.loop.want = some n := by
    unfold ClientLoop.want
    cases hp : t.loop.position with
    | ended => exact absurd hp hpos
    | _ => exact ⟨_, rfl⟩
  have hstep : t.loop.step .timeout stop = some (t.loop.resume .timeout stop) := by
    simp [ClientLoop.step, hwant, deliver, RecvResult.bytes]
  have htaken : t.loop.taken (t.loop.resume .timeout stop) = .reading := by
    rcases resume_timeout t.loop stop with hended | ⟨out, -, hprobing⟩
    · simp [hended, ClientLoop.taken]
    · simp [hprobing, ClientLoop.taken]
  have hrecv := Step.recv (j := j) (c := c) .timeout _ hreading hstep
  rw [htaken, ← hreading] at hrecv
  exact hrecv

/-- Two timeouts end a thread that reads. -/
theorem exists_ended (c : SharedCoordinator) {t : ClientThread} (hreading : t.work = .reading) :
    ∃ x, ReflTransGen (Step j stop) (c, t) x ∧ x.2.Ended := by
  by_cases hpos : t.loop.position = .ended
  · exact ⟨(c, t), .refl, hpos, hreading⟩
  · have hfirst := recv_timeout j stop c hreading hpos
    rcases resume_timeout t.loop stop with hended | ⟨out, -, hprobing⟩
    · exact ⟨_, .single hfirst, by rw [hended], hreading⟩
    · rw [hprobing] at hfirst
      have hsecond := recv_timeout j stop c
        (t := { t with
          loop := { t.loop with position := .probing }, taken := c.calls.length }) hreading (by simp)
      exact ⟨_, (ReflTransGen.single hfirst).tail hsecond, rfl, hreading⟩

end ClientThread

theorem canEnd_clientHandler : CoordinatorServer.CanEnd clientHandler := by
  intro j stop c t
  obtain ⟨⟨c', t'⟩, hrun, hreading⟩ :=
    ClientThread.exists_reading j stop t.work.rank c (t := t) le_rfl
  obtain ⟨x, hlater, hended⟩ := ClientThread.exists_ended j stop c' hreading
  exact ⟨x, hrun.trans hlater, hended⟩

section Stopping
variable {ι : Type*} [DecidableEq ι] {c₀ : Coordinator} {i : ι}
  {s : CoordinatorServer ι SharedCoordinator ClientThread}

/-- When the call of `stop` that found the server running has returned, every connection that was
ever accepted has ended, and nothing that other threads still do changes the coordinator. -/
theorem stopped_server_is_quiet (hrun : ServerRun c₀ s) (hi : s.stop i = .returned true) :
    s.acceptor = .left ∧ s.clients = [] ∧ (∀ t ∈ s.threads, t.Ended) ∧
      ∀ s', ReflTransGen (CoordinatorServer.Step clientHandler) s s' →
        s'.coord = s.coord ∧ s'.threads = s.threads :=
  CoordinatorServer.quiet_of_returned hrun hi

/-- A server that was stopped after it had served a client. -/
theorem stopped_server_is_quiet_served :
    ∃ s : CoordinatorServer Unit SharedCoordinator ClientThread, s.stop () = .returned true ∧
      (∀ t ∈ s.threads, t.Ended) ∧
      ∀ s', ReflTransGen (CoordinatorServer.Step clientHandler) s s' → s'.coord = s.coord := by
  obtain ⟨s₀, o, hrun, hrequesting, -⟩ := exists_run_helloAndObservation ()
  obtain ⟨s, hlater, hreturned⟩ := CoordinatorServer.exists_returned canEnd_clientHandler
    (i := ()) hrun (by rw [hrequesting]; trivial)
  obtain ⟨-, -, hended, hquiet⟩ := stopped_server_is_quiet (hrun.trans hlater) hreturned
  exact ⟨s, hreturned, hended, fun s' hs' => (hquiet s' hs').1⟩

/-- A call of `stop` that has found the server running is never stuck: whatever the accepting
thread, the clients and other calls of `stop` have done, it can come to its end. -/
theorem stop_can_return (hrun : ServerRun c₀ s) (hi : (s.stop i).Won) :
    ∃ s', ReflTransGen (CoordinatorServer.Step clientHandler) s s' ∧ s'.stop i = .returned true :=
  CoordinatorServer.exists_returned canEnd_clientHandler hrun hi

/-- A server that is stopped while it serves a client. -/
theorem stop_can_return_served :
    ∃ s s' : CoordinatorServer Unit SharedCoordinator ClientThread, ServerRun {} s ∧
      s.stop () = .requesting ∧ s.threads ≠ [] ∧
      ReflTransGen (CoordinatorServer.Step clientHandler) s s' ∧ s'.stop () = .returned true := by
  obtain ⟨s, o, hrun, hrequesting, t, a, ht, -⟩ := exists_run_helloAndObservation ()
  have hwon : (s.stop ()).Won := by rw [hrequesting]; trivial
  obtain ⟨s', hlater, hreturned⟩ := stop_can_return hrun hwon
  refine ⟨s, s', hrun, hrequesting, ?_, hlater, hreturned⟩
  intro hnil
  simp [hnil] at ht

end Stopping
end ServingObservatory
