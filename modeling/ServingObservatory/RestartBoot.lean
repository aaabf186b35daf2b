import ServingObservatory.AuthorityProgress
import ServingObservatory.ObservationIds

/-!
# The boots of restarts

A source object counts its restarts from zero and derives each boot from the counter alone,
so two objects of one worker mint the same boots. A run constructs and restarts objects in
any order, and the boots that a worker has used are recorded with the counters behind them.
-/
namespace ServingObservatory
open BigEndian

structure SourceConfig where
  source : SourceId := {}
  worker : WorkerId := {}
  boot : WorkerBootId := {}
  srcGen : UInt64 := 1
  obsGen : UInt64 := 1
  epoch : UInt64 := 1
  clockDomain : Str := lit "mono_ns"

/-- What a restart reads and changes of a `Source`. -/
structure Source where
  cfg : SourceConfig
  serial : UInt64 := 0

/-- A counter in memory, least significant byte first. -/
def serialBytes (n : UInt64) : Bytes := (bytes 8 n.toNat).reverse

/-- The boot that is derived from a counter. -/
def derivedBoot (n : UInt64) : WorkerBootId := ⟨Id128.derive 0x424F4F54 (serialBytes n)⟩

def Source.restartBoot (s : Source) : WorkerBootId × Source :=
  let nb := derivedBoot s.serial
  (nb, { cfg := { s.cfg with boot := nb, srcGen := s.cfg.srcGen + 1, obsGen := s.cfg.obsGen + 1,
                             epoch := s.cfg.epoch + 0 },
         serial := s.serial + 1 })

/-- Counters whose boots are one. -/
def SerialsCollide (m n : UInt64) : Prop := Id128.Collide 0x424F4F54 (serialBytes m) (serialBytes n)

theorem derivedBoot_eq_iff (m n : UInt64) : derivedBoot m = derivedBoot n ↔ SerialsCollide m n := by
  rw [derivedBoot, derivedBoot, Id.mk.injEq, Id128.derive_eq_iff, SerialsCollide]

/-- Counters with the same upper half do not collide. -/
theorem eq_of_serialsCollide {m n : UInt64} (hhalf : m.toNat / 2 ^ 32 = n.toNat / 2 ^ 32)
    (h : SerialsCollide m n) : m = n := by
  have hhalf' : m.toNat / 256 ^ 4 = n.toNat / 256 ^ 4 := hhalf
  unfold SerialsCollide serialBytes at h
  simp only [bytes_add 4 4, hhalf', List.reverse_append] at h
  have hlow : (bytes 4 m.toNat).reverse = (bytes 4 n.toNat).reverse :=
    Id128.eq_of_collide (x := []) (by simp) (by simp) h
  exact UInt64.toNat_inj.mp (eq_of_bytes_eq hhalf' (List.reverse_injective hlow))

/-- A boot that a worker has used, with the counter that it was derived from if a restart
minted it. -/
structure BootUse where
  source : SourceId
  worker : WorkerId
  boot : WorkerBootId
  serial : Option UInt64

/-- The source objects, and all boots that were used so far. -/
structure Fleet where
  objects : List Source := []
  uses : List BootUse := []

inductive SourceOp
  | construct (cfg : SourceConfig)
  | restart (i : ℕ)

namespace Fleet

def construct (f : Fleet) (cfg : SourceConfig) : Fleet where
  objects := f.objects ++ [{ cfg := cfg }]
  uses := f.uses ++ [⟨cfg.source, cfg.worker, cfg.boot, none⟩]

def restart (f : Fleet) (i : ℕ) (s : Source) : Fleet where
  objects := f.objects.set i s.restartBoot.2
  uses := f.uses ++ [⟨s.cfg.source, s.cfg.worker, s.restartBoot.1, some s.serial⟩]

/-- The earlier boots of the worker of an object. -/
def usesOf (f : Fleet) (s : Source) : List BootUse :=
  f.uses.filter fun u => u.source = s.cfg.source ∧ u.worker = s.cfg.worker

end Fleet

/-- Objects are constructed and restarted in any order. -/
def fleetMachine : Machine Fleet SourceOp Unit where
  step f
    | .construct cfg => (f.construct cfg, ())
    | .restart i => match f.objects[i]? with
      | some s => (f.restart i s, ())
      | none => (f, ())

/-- The restart mints a boot that its worker has never used, and both generations grow. -/
structure FreshRestart (f : Fleet) (s : Source) : Prop where
  not_current : s.restartBoot.1 ≠ s.cfg.boot
  not_used : ∀ u ∈ f.usesOf s, s.restartBoot.1 ≠ u.boot
  srcGen_lt : s.cfg.srcGen < s.restartBoot.2.cfg.srcGen
  obsGen_lt : s.cfg.obsGen < s.restartBoot.2.cfg.obsGen

/-- Neither generation is at its end, no restart of the worker had this counter or one that
collides with it, and the worker was never configured with the boot of this counter. -/
structure RestartSafe (f : Fleet) (s : Source) : Prop where
  srcGen_ne : s.cfg.srcGen ≠ 0xFFFFFFFFFFFFFFFF
  obsGen_ne : s.cfg.obsGen ≠ 0xFFFFFFFFFFFFFFFF
  minted : ∀ u ∈ f.usesOf s, ∀ n, u.serial = some n → ¬ SerialsCollide s.serial n
  configured : ∀ u ∈ f.usesOf s, u.serial = none → u.boot ≠ derivedBoot s.serial

/-- `P` holds where an object is restarted. -/
def AtRestarts (P : Fleet → Source → Prop) (ops : List SourceOp) : Prop :=
  ∀ before i after, ops = before ++ .restart i :: after →
    ∀ s, (fleetMachine.run {} before).objects[i]? = some s → P (fleetMachine.run {} before) s

/-- The record of the boots is faithful. -/
structure BootsRecorded (f : Fleet) : Prop where
  minted : ∀ u ∈ f.uses, ∀ n, u.serial = some n → u.boot = derivedBoot n
  current : ∀ s ∈ f.objects, ∃ u ∈ f.usesOf s, u.boot = s.cfg.boot

theorem Fleet.mem_usesOf {f : Fleet} {s : Source} {u : BootUse} : u ∈ f.usesOf s ↔
    u ∈ f.uses ∧ u.source = s.cfg.source ∧ u.worker = s.cfg.worker := by
  simp [usesOf]

/-- One more use keeps the record faithful when it is what its counter says, and when every
object is an old one or uses it. -/
theorem BootsRecorded.of_use {f f' : Fleet} (h : BootsRecorded f) {u : BootUse}
    (huses : f'.uses = f.uses ++ [u]) (hboot : ∀ n, u.serial = some n → u.boot = derivedBoot n)
    (hobjects : ∀ s ∈ f'.objects, s ∈ f.objects ∨
      u.source = s.cfg.source ∧ u.worker = s.cfg.worker ∧ u.boot = s.cfg.boot) :
    BootsRecorded f' where
  minted u' hu' n hn := by
    rw [huses] at hu'
    rcases List.mem_append.mp hu' with hold | hnew
    · exact h.minted u' hold n hn
    · obtain rfl := List.mem_singleton.mp hnew
      exact hboot n hn
  current s hs := by
    simp only [Fleet.mem_usesOf, huses]
    rcases hobjects s hs with hold | ⟨hsource, hworker, hcurrent⟩
    · obtain ⟨u', hu', hcurrent⟩ := h.current s hold
      obtain ⟨hu', hpair⟩ := Fleet.mem_usesOf.mp hu'
      exact ⟨u', ⟨List.mem_append_left _ hu', hpair⟩, hcurrent⟩
    · exact ⟨u, ⟨List.mem_append_right _ List.mem_cons_self, hsource, hworker⟩, hcurrent⟩

theorem BootsRecorded.construct {f : Fleet} (h : BootsRecorded f) (cfg : SourceConfig) :
    BootsRecorded (f.construct cfg) := by
  refine h.of_use rfl nofun fun s hs => ?_
  rcases List.mem_append.mp hs with hold | hnew
  · exact .inl hold
  · obtain rfl := List.mem_singleton.mp hnew
    exact .inr ⟨rfl, rfl, rfl⟩

theorem BootsRecorded.restart {f : Fleet} (h : BootsRecorded f) (i : ℕ) (s : Source) :
    BootsRecorded (f.restart i s) := by
  refine h.of_use rfl (fun n hn => ?_) fun s' hs => ?_
  · rw [← Option.some.inj hn]
    rfl
  · rcases List.mem_or_eq_of_mem_set hs with hold | rfl
    · exact .inl hold
    · exact .inr ⟨rfl, rfl, rfl⟩

theorem bootsRecorded_run (ops : List SourceOp) : BootsRecorded (fleetMachine.run {} ops) := by
  refine fleetMachine.history_induction (I := fun _ f => BootsRecorded f)
    ⟨by simp, by simp⟩ (fun _ f op h => ?_) ops
  cases op with
  | construct cfg => exact h.construct cfg
  | restart i =>
    cases hs : f.objects[i]? with
    | none => simpa [Machine.next, fleetMachine, hs] using h
    | some s => simpa [Machine.next, fleetMachine, hs] using h.restart i s

/-- The condition decides, whatever the objects of the worker have done. -/
theorem BootsRecorded.freshRestart_iff {f : Fleet} (h : BootsRecorded f) {s : Source}
    (hs : s ∈ f.objects) : FreshRestart f s ↔ RestartSafe f s := by
  constructor
  · intro hfresh
    refine ⟨(lt_add_one_iff _).mp hfresh.srcGen_lt, (lt_add_one_iff _).mp hfresh.obsGen_lt,
      fun u hu n hn hcollide => ?_, fun u hu _ hboot => hfresh.not_used u hu hboot.symm⟩
    refine hfresh.not_used u hu ?_
    rw [h.minted u (Fleet.mem_usesOf.mp hu).1 n hn]
    exact (derivedBoot_eq_iff _ _).mpr hcollide
  · intro hsafe
    have hused : ∀ u ∈ f.usesOf s, s.restartBoot.1 ≠ u.boot := by
      intro u hu heq
      cases hserial : u.serial with
      | none => exact hsafe.configured u hu hserial heq.symm
      | some n =>
        rw [h.minted u (Fleet.mem_usesOf.mp hu).1 n hserial] at heq
        exact hsafe.minted u hu n hserial ((derivedBoot_eq_iff _ _).mp heq)
    obtain ⟨u, hu, hboot⟩ := h.current s hs
    exact ⟨hboot ▸ hused u hu, hused, (lt_add_one_iff _).mpr hsafe.srcGen_ne,
      (lt_add_one_iff _).mpr hsafe.obsGen_ne⟩

/-- In a run of constructions and restarts every restart is fresh if and only if every restart
meets the condition, and counters with the same upper half do not stand in its way. -/
theorem freshRestarts_iff (ops : List SourceOp) :
    (AtRestarts FreshRestart ops ↔ AtRestarts RestartSafe ops) ∧
      ∀ m n : UInt64, m.toNat / 2 ^ 32 = n.toNat / 2 ^ 32 → m ≠ n → ¬ SerialsCollide m n := by
  refine ⟨?_, fun m n hhalf hne h => hne (eq_of_serialsCollide hhalf h)⟩
  have hiff : ∀ before i s, (fleetMachine.run {} before).objects[i]? = some s →
      (FreshRestart (fleetMachine.run {} before) s ↔
        RestartSafe (fleetMachine.run {} before) s) := fun before i s hs =>
    (bootsRecorded_run before).freshRestart_iff (List.mem_of_getElem? hs)
  exact ⟨fun h before i after ho s hs => (hiff before i s hs).mp (h before i after ho s hs),
    fun h before i after ho s hs => (hiff before i s hs).mpr (h before i after ho s hs)⟩

/-- A worker is configured twice, and restarted once each time. -/
theorem not_fresh_twoObjects : ¬ ∀ ops, AtRestarts FreshRestart ops := by
  intro h
  let cfg : SourceConfig := { source := ⟨⟨0, 1⟩⟩, worker := ⟨⟨0, 2⟩⟩, boot := ⟨⟨0, 3⟩⟩ }
  have hfresh := h [.construct cfg, .restart 0, .construct cfg, .restart 1]
    [.construct cfg, .restart 0, .construct cfg] 1 [] rfl { cfg := cfg } rfl
  exact hfresh.not_used ⟨cfg.source, cfg.worker, derivedBoot 0, some 0⟩
    (Fleet.mem_usesOf.mpr ⟨by simp [fleetMachine, Machine.next, Fleet.construct, Fleet.restart,
      Source.restartBoot], rfl, rfl⟩) rfl

end ServingObservatory
