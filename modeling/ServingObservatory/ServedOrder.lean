import ServingObservatory.ServedClients

/-!
# The order in which clients are served does not matter

Two runs of the server in which each connection delivered the same frames end with the same
reconstruction and with the same acknowledgements, once all frames are answered, when frames of
different connections have different keys in the registry and different observations. Sources that
differ may share a key, and then the order does matter. Connections may be accepted in another
order.
-/
namespace ServingObservatory
open Interleaving

section Verdicts
variable {c₀ : Coordinator} {calls : List (ℕ × ClientCall)} {j : ℕ}

/-- What the call at a place returns, without the running totals. -/
def verdictAt (c₀ : Coordinator) (calls : List (ℕ × ClientCall)) (n : ℕ) : Option CoordinatorOut :=
  calls[n]?.map fun x => verdict (clientMachine.out (coordinatorAt c₀ calls n) x.2)

theorem answers_eq_filterMap_verdictAt (c₀ : Coordinator) (calls : List (ℕ × ClientCall)) (j : ℕ) :
    answers clientMachine verdict c₀ calls j =
      (positionsOf j calls).filterMap (verdictAt c₀ calls) := by
  induction calls using List.reverseRecOn with
  | nil => rfl
  | append_singleton calls x ih =>
    have hold : (positionsOf j calls).filterMap (verdictAt c₀ (calls ++ [x])) =
        (positionsOf j calls).filterMap (verdictAt c₀ calls) := by
      refine List.filterMap_congr fun n hn => ?_
      have hlt : n < calls.length := List.mem_range.mp (List.mem_of_mem_filter hn)
      rw [verdictAt, verdictAt, List.getElem?_append_left hlt, coordinatorAt_append hlt.le]
    rw [answers_concat, positionsOf_concat, List.filterMap_append, hold, ih]
    congr 1
    split_ifs
    · simp [verdictAt, coordinatorAt, Interleaving.run]
    · rfl

/-- An acknowledgement without the running total. -/
def ackOfVerdict : CoordinatorOut → Option ObsAckPayload
  | .ingested result => some result.ack
  | _ => none

/-- The acknowledgements of observations that a client reads, without the running totals. -/
def ClientThread.acks (t : ClientThread) : List ObsAckPayload :=
  t.answers.filterMap fun a =>
    match a.frame.request, ackOf (.ok (some a.reply)) with
    | .ingest _, .ok p => some { p with acceptedTotal := 0 }
    | _, _ => none

/-- The acknowledgements on a connection are the verdicts on its observations. -/
theorem ClientThread.Served.acks {t : ClientThread} (h : t.Served c₀ calls j)
    (hidle : t.work = .reading) :
    t.acks = (Interleaving.answers clientMachine verdict c₀ calls j).filterMap ackOfVerdict := by
  have hpositions := h.positions
  rw [hidle, ClientWork.position, Option.toList_none, List.append_nil] at hpositions
  rw [answers_eq_filterMap_verdictAt, ← hpositions, List.filterMap_filterMap,
    List.filterMap_filterMap, ClientThread.acks]
  refine List.filterMap_congr fun a ha => ?_
  have hanswer := h.answers a ha
  unfold Answers at hanswer
  cases hrequest : a.frame.request with
  | register hello =>
    rw [hrequest] at hanswer
    obtain ⟨n, k, hposition, hcall, -⟩ := hanswer
    simp [hposition, verdictAt, hcall, verdict, clientMachine, Machine.out, ClientCall.op,
      coordinatorMachine, ackOfVerdict]
  | ingest o =>
    rw [hrequest] at hanswer
    obtain ⟨n, hposition, hcall, -, -, hreply⟩ := hanswer
    have hread := ackOf_ackFrame _ o hreply.symm
    simp [hposition, verdictAt, hcall, verdict, clientMachine, Machine.out, ClientCall.op,
      coordinatorMachine, ackOfVerdict, hread, IngestResult.ack]
  | status =>
    rw [hrequest] at hanswer
    simp [hanswer.1]
  | ping =>
    rw [hrequest] at hanswer
    simp [hanswer.1]
  | bye | nothing =>
    rw [hrequest] at hanswer
    exact hanswer.elim

end Verdicts

section Order
variable {ι κ : Type*} [DecidableEq ι] [DecidableEq κ] {c₀ : Coordinator}

/-- The frames that were dispatched on a connection. -/
def dispatchedOn (s : CoordinatorServer ι SharedCoordinator ClientThread) (j : ℕ) : List Bytes :=
  (s.threads[j]?.map fun t => t.loop.dispatched).getD []

/-- The acknowledgements that a client has read on a connection. -/
def acksOn (s : CoordinatorServer ι SharedCoordinator ClientThread) (j : ℕ) : List ObsAckPayload :=
  (s.threads[j]?.map ClientThread.acks).getD []

/-- No thread is between a frame and the end of its answer. -/
def AllAnswered (s : CoordinatorServer ι SharedCoordinator ClientThread) : Prop :=
  ∀ t ∈ s.threads, t.work = .reading

variable {s : CoordinatorServer ι SharedCoordinator ClientThread}
  {s' : CoordinatorServer κ SharedCoordinator ClientThread}

omit [DecidableEq ι] in
theorem AllServed.ofClient_calls (h : AllServed c₀ s.coord s.threads) (hidle : AllAnswered s)
    (j : ℕ) : ofClient j s.coord.calls = (dispatchedOn s j).filterMap callOf := by
  cases hj : s.threads[j]? with
  | some t =>
    have hmade := (h.served j t hj).made
    rw [ClientThread.handled, hidle t (List.mem_of_getElem? hj)] at hmade
    simpa [dispatchedOn, hj] using hmade
  | none =>
    have hlen := List.getElem?_eq_none_iff.mp hj
    have hnone : ∀ x ∈ s.coord.calls, x.1 ≠ j := fun x hx => by have := h.known x hx; omega
    simpa [dispatchedOn, hj, ofClient] using fun x y hxy => hnone (x, y) hxy

omit [DecidableEq ι] in
theorem AllServed.acksOn_eq (h : AllServed c₀ s.coord s.threads) (hidle : AllAnswered s) (j : ℕ) :
    acksOn s j = (answers clientMachine verdict c₀ s.coord.calls j).filterMap ackOfVerdict := by
  cases hj : s.threads[j]? with
  | some t =>
    have hacks := (h.served j t hj).acks (hidle t (List.mem_of_getElem? hj))
    simpa [acksOn, hj] using hacks
  | none =>
    have hlen := List.getElem?_eq_none_iff.mp hj
    have hnone : positionsOf j s.coord.calls = [] := by
      refine List.filter_eq_nil_iff.mpr fun n hn => ?_
      have hget := List.getElem?_eq_getElem (List.mem_range.mp hn)
      have hknown := h.known _ (List.getElem_mem (List.mem_range.mp hn))
      simp only [hget, Option.map_some, Option.some.injEq, decide_eq_true_eq]
      omega
    rw [answers_eq_filterMap_verdictAt, hnone]
    simp [acksOn, hj]

/-- In two runs of the server whose connections, up to their numbers, dispatched the same frames
and have answered them all, the coordinators end with the same registry, the same accepted evidence
and the same index up to the order inside its lists, and each client reads the same acknowledgements
but for the running total, if frames of different connections are about different registry keys and
different identities. -/
theorem served_order_irrelevant (hrun : ServerRun c₀ s) (hrun' : ServerRun c₀ s')
    (hidle : AllAnswered s) (hidle' : AllAnswered s') (π : Equiv.Perm ℕ)
    (hsame : ∀ j, dispatchedOn s j = dispatchedOn s' (π j))
    (hapart : ∀ i j, i ≠ j → ∀ full ∈ dispatchedOn s i, ∀ full' ∈ dispatchedOn s j,
      ∀ x ∈ callOf full, ∀ y ∈ callOf full', x.Apart y) :
    SameReconstruction s.coord.coordinator s'.coord.coordinator ∧
      ∀ j, acksOn s j = acksOn s' (π j) := by
  obtain ⟨h, -⟩ := allServed_run hrun
  obtain ⟨h', -⟩ := allServed_run hrun'
  let l := s'.coord.calls.map (Prod.map π.symm id)
  have hstreams : Interleaves (fun j => ofClient j s.coord.calls) l := by
    intro j
    dsimp only
    rw [ofClient_rename, Equiv.symm_symm, h'.ofClient_calls hidle', h.ofClient_calls hidle, hsame]
  have hcalls : ∀ i j, i ≠ j → ∀ x ∈ ofClient i s.coord.calls,
      ∀ y ∈ ofClient j s.coord.calls, x.Apart y := by
    intro i j hij x hx y hy
    rw [h.ofClient_calls hidle, List.mem_filterMap] at hx hy
    obtain ⟨full, hfull, hx⟩ := hx
    obtain ⟨full', hfull', hy⟩ := hy
    exact hapart i j hij full hfull full' hfull' x hx y hy
  obtain ⟨hreconstruction, hanswers⟩ := clientMachine_independent.interleavings_agree hcalls
    (fun _ => rfl) hstreams c₀
  have hend : s.coord.coordinator = Interleaving.run clientMachine c₀ s.coord.calls := by
    rw [h.coordinator, coordinatorAt, List.take_length]
    rfl
  have hend' : s'.coord.coordinator = Interleaving.run clientMachine c₀ l := by
    rw [h'.coordinator, coordinatorAt, List.take_length, Interleaving.run, List.map_map]
    rfl
  refine ⟨hend ▸ hend' ▸ hreconstruction, fun j => ?_⟩
  rw [h.acksOn_eq hidle, h'.acksOn_eq hidle', hanswers, answers_rename, Equiv.symm_symm]

/-- The server with two connections. -/
def twoConnections : CoordinatorServer Unit SharedCoordinator ClientThread :=
  { coord := { coordinator := {} }, clients := [0, 1], threads := [{}, {}] }

/-- Two clients on a fresh server, the first of them served before the second. -/
def serveBoth (first second : List ClientThread.Action) :
    Option (SharedCoordinator × ClientThread × ClientThread) := do
  let x ← first.foldlM (ClientThread.act 0 false) ({ coordinator := {} }, {})
  let y ← second.foldlM (ClientThread.act 1 false) (x.1, {})
  pure (y.1, x.2, y.2)

theorem serverRun_serveBoth {first second : List ClientThread.Action}
    {x : SharedCoordinator × ClientThread × ClientThread} (h : serveBoth first second = some x) :
    ServerRun {} { twoConnections with coord := x.1, threads := [x.2.1, x.2.2] } := by
  simp only [serveBoth, Option.bind_eq_bind, Option.bind_eq_some_iff, Option.pure_def,
    Option.some.injEq] at h
  obtain ⟨y, hy, z, hz, rfl⟩ := h
  have hnew : clientHandler.starts ({} : ClientThread) := rfl
  have htest := (@serverRun_oneConnection Unit _).tail (.test rfl)
  have hconnections : ServerRun {} twoConnections :=
    (((htest.tail (.connect _ rfl rfl hnew)).tail (.lockClients _ rfl rfl)).tail
      (.emplace _ rfl)).tail (.unlockClients rfl)
  have hfirst := CoordinatorServer.client_goes_on (H := clientHandler) (s := twoConnections)
    (j := 0) rfl (ClientThread.run_of_acts hy)
  have hsecond := CoordinatorServer.client_goes_on (H := clientHandler)
    (s := { twoConnections with coord := y.1, threads := [y.2, {}] }) (j := 1) rfl
    (ClientThread.run_of_acts hz)
  exact (hconnections.trans hfirst).trans hsecond

/-- The HELLO of another source. -/
def otherHelloActions : List ClientThread.Action :=
  let hello : HelloPayload := { source := ⟨⟨0, 1⟩⟩, epoch := 1 }
  [.arrive ((hello.frame).toOption.getD []), .recv (.data 4), .recv (.data 92), .advance, .advance,
    .send 22]

instance (x y : ClientCall) : Decidable (x.Apart y) := inferInstanceAs (Decidable (_ ∧ _))

/-- What is asked of the two runs of two clients, the first of one with the second of the other. -/
def Comparable (x y : SharedCoordinator × ClientThread × ClientThread) : Prop :=
  (x.2.1.loop.dispatched = y.2.2.loop.dispatched ∧
    x.2.2.loop.dispatched = y.2.1.loop.dispatched) ∧
  (x.2.1.work = .reading ∧ x.2.2.work = .reading) ∧
  (y.2.1.work = .reading ∧ y.2.2.work = .reading) ∧
  ∀ full ∈ x.2.1.loop.dispatched, ∀ full' ∈ x.2.2.loop.dispatched,
    ∀ c ∈ callOf full, ∀ c' ∈ callOf full', c.Apart c'

instance (x y : SharedCoordinator × ClientThread × ClientThread) : Decidable (Comparable x y) :=
  inferInstanceAs (Decidable ((_ ∧ _) ∧ (_ ∧ _) ∧ (_ ∧ _) ∧ _))

theorem comparable_serveBoth :
    ((serveBoth helloObservationActions otherHelloActions).bind fun x =>
      (serveBoth otherHelloActions helloObservationActions).map fun y =>
        decide (Comparable x y) && x.2.1.acks.length == 1) = some true := by
  decide +kernel

/-- The clients are accepted and served in one order and in the other. -/
theorem served_order_irrelevant_two : ∃ x y,
    serveBoth helloObservationActions otherHelloActions = some x ∧
      serveBoth otherHelloActions helloObservationActions = some y ∧ x.2.1.acks.length = 1 ∧
      SameReconstruction x.1.coordinator y.1.coordinator ∧ x.2.1.acks = y.2.2.acks := by
  have hcheck := comparable_serveBoth
  simp only [Option.bind_eq_some_iff, Option.map_eq_some_iff, Bool.and_eq_true,
    decide_eq_true_eq, beq_iff_eq] at hcheck
  obtain ⟨x, hx, y, hy, ⟨hsame, hidle, hidle', hapart⟩, hacks⟩ := hcheck
  refine ⟨x, y, hx, hy, hacks, ?_⟩
  have h := served_order_irrelevant (serverRun_serveBoth hx) (serverRun_serveBoth hy)
    (by simpa [AllAnswered] using hidle) (by simpa [AllAnswered] using hidle') (Equiv.swap 0 1)
    (fun j => ?_) (fun i j hij => ?_)
  · exact ⟨h.1, by simpa [acksOn] using h.2 0⟩
  · match j with
    | 0 => simpa [dispatchedOn] using hsame.1
    | 1 => simpa [dispatchedOn] using hsame.2
    | j + 2 => simp [dispatchedOn, Equiv.swap_apply_of_ne_of_ne]
  · match i, j with
    | 0, 0 | 1, 1 => exact absurd rfl hij
    | 0, 1 => simpa [dispatchedOn] using hapart
    | 1, 0 =>
      intro full hfull full' hfull' c hc c' hc'
      exact (hapart full' hfull' full hfull c' hc' c hc).symm
    | i + 2, j => simp [dispatchedOn]
    | 0, j + 2 | 1, j + 2 => simp [dispatchedOn]

end Order
end ServingObservatory
