import ServingObservatory.CoordinatorEvidence
import ServingObservatory.Fnv
import ServingObservatory.ObservationWire

/-!
# When derived identities collide

An identity is derived from two running hashes of the same bytes, each finalized without a
loss, and only the high word zero is replaced. So two byte strings collide when both hashes
do. An observation that is minted with a derived identity is dropped as a duplicate when an
accepted one collides with it.
-/
namespace ServingObservatory
open Std BigEndian

namespace Id128

def firstHash (tag : UInt64) (data : Bytes) : UInt64 :=
  Fnv.fold Fnv.prime (14695981039346656037 ^^^ tag) data

def secondHash (tag : UInt64) (data : Bytes) : UInt64 :=
  Fnv.fold Fnv.prime (14695981039346656037 ^^^ (tag ^^^ 0x9e3779b97f4a7c15)) (data.map (· + 1))

/-- The first hash as a high word. -/
def highWord (h : UInt64) : UInt64 :=
  if mix h ^^^ 0x00ECB00000000000 == 0 then 1 else mix h ^^^ 0x00ECB00000000000

theorem foldl_deriveStep (data : Bytes) (h : UInt64 × UInt64) : data.foldl deriveStep h =
    (Fnv.fold Fnv.prime h.1 data, Fnv.fold Fnv.prime h.2 (data.map (· + 1))) := by
  induction data generalizing h with
  | nil => rfl
  | cons b data ih => exact ih (deriveStep h b)

theorem derive_eq (tag : UInt64) (data : Bytes) :
    derive tag data = ⟨highWord (firstHash tag data), mix (secondHash tag data)⟩ := by
  simp only [derive, foldl_deriveStep]
  rfl

/-- The finalizer can be undone step by step. -/
theorem mix_inj {x y : UInt64} : mix x = mix y ↔ x = y := by
  refine ⟨fun h => ?_, congrArg mix⟩
  have hshift : ∀ {a b k : UInt64}, 0 < k.toNat % 64 →
      a ^^^ (a >>> k) = b ^^^ (b >>> k) → a = b := by
    intro a b k hk hab
    refine UInt64.toBitVec_inj.mp (Fnv.eq_of_xor_shiftRight hk ?_)
    simpa using congrArg UInt64.toBitVec hab
  have h₁ := hshift (by decide) h
  have h₂ := (Fnv.mul_left_inj (q := 3573116690164977347) (by decide)).mp h₁
  have h₃ := hshift (by decide) h₂
  have h₄ := (Fnv.mul_left_inj (q := 10871156337175269513) (by decide)).mp h₃
  exact hshift (by decide) h₄

/-- The words that are finalized to zero and to one. Both become the high word one. -/
def Merged (x y : UInt64) : Prop :=
  x = 0xf5fdae13fd9de3a9 ∧ y = 0xd61731f0da7781ee ∨ x = 0xd61731f0da7781ee ∧ y = 0xf5fdae13fd9de3a9

instance (x y : UInt64) : Decidable (Merged x y) := inferInstanceAs (Decidable (_ ∨ _))

theorem highWord_eq_iff (x y : UInt64) : highWord x = highWord y ↔ x = y ∨ Merged x y := by
  have hfinal : ∀ z w, mix w ^^^ 0x00ECB00000000000 = z →
      ∀ h, mix h ^^^ 0x00ECB00000000000 = z ↔ h = w := by
    rintro z w rfl h
    exact (UInt64.xor_left_inj _).trans mix_inj
  have hzero := hfinal 0 0xf5fdae13fd9de3a9 (by decide)
  have hone := hfinal 1 0xd61731f0da7781ee (by decide)
  have hne : (0xf5fdae13fd9de3a9 : UInt64) ≠ 0xd61731f0da7781ee := by decide
  unfold highWord Merged
  simp only [beq_iff_eq, hzero]
  split_ifs with hx hy hy
  · simp [hx, hy]
  · rw [eq_comm, hone, hx]
    simp [hne, Ne.symm hy]
  · rw [hone, hy]
    simp [hx]
  · rw [UInt64.xor_left_inj, mix_inj]
    simp [hx, hy]

/-- Two strings that `derive` maps to one identity. -/
def Collide (tag : UInt64) (a b : Bytes) : Prop :=
  secondHash tag a = secondHash tag b ∧
    (firstHash tag a = firstHash tag b ∨ Merged (firstHash tag a) (firstHash tag b))

instance (tag : UInt64) (a b : Bytes) : Decidable (Collide tag a b) :=
  inferInstanceAs (Decidable (_ ∧ _))

theorem derive_eq_iff (tag : UInt64) (a b : Bytes) :
    derive tag a = derive tag b ↔ Collide tag a b := by
  rw [derive_eq, derive_eq, Id128.mk.injEq, highWord_eq_iff, mix_inj, Collide, and_comm]

/-- Strings that differ in four bytes in a row, or in fewer, do not collide. -/
theorem eq_of_collide {tag : UInt64} {x u v y : Bytes} (hlen : u.length = v.length)
    (hshort : u.length ≤ 4) (h : Collide tag (x ++ u ++ y) (x ++ v ++ y)) : u = v := by
  have hsecond := h.1
  simp only [secondHash, List.map_append] at hsecond
  have hmap := Fnv.eq_of_fold_eq (by simpa using hlen) (by simpa using hshort) hsecond
  exact List.map_injective_iff.mpr (fun a b hab => UInt8.add_left_inj 1 |>.mp hab) hmap

theorem toBytes_injective : Function.Injective toBytes := by
  intro a b h
  rw [toBytes_eq, toBytes_eq] at h
  obtain ⟨hhi, hlo⟩ := List.append_inj h (by simp)
  exact Id128.mk.injEq .. ▸ ⟨UInt64.toNat_inj.mp (bytes_inj a.hi.toNat_lt b.hi.toNat_lt hhi),
    UInt64.toNat_inj.mp (bytes_inj a.lo.toNat_lt b.lo.toNat_lt hlo)⟩

end Id128

/-- The identity of an observation of a boot, from its place in the stream. -/
def deriveObservationId (source worker boot : Id128) (seq : UInt64) (type : ObsType) :
    ObservationId :=
  let buf := source.toBytes ++ worker.toBytes ++ boot.toBytes ++ putBe 8 seq.toBitVec ++
    putBe 2 type.code.toBitVec
  ⟨Id128.derive 0x4F4253 buf⟩

/-- What an identity is derived from. -/
structure Origin where
  source : Id128
  worker : Id128
  boot : Id128
  seq : UInt64
  type : ObsType
  deriving DecidableEq

namespace Origin

def id (a : Origin) : ObservationId := deriveObservationId a.source a.worker a.boot a.seq a.type

/-- The 58 bytes that are hashed. -/
def bytes (a : Origin) : Bytes :=
  a.source.toBytes ++ a.worker.toBytes ++ a.boot.toBytes ++ BigEndian.bytes 8 a.seq.toNat ++
    BigEndian.bytes 2 a.type.code.toNat

theorem id_eq (a : Origin) : a.id = ⟨Id128.derive 0x4F4253 a.bytes⟩ := by
  simp only [id, deriveObservationId, bytes, putBe_eq]
  rfl

def Collides (a b : Origin) : Prop := Id128.Collide 0x4F4253 a.bytes b.bytes

instance (a b : Origin) : Decidable (a.Collides b) := inferInstanceAs (Decidable (_ ∧ _))

theorem id_eq_iff (a b : Origin) : a.id = b.id ↔ a.Collides b := by
  rw [id_eq, id_eq, Id.mk.injEq, Id128.derive_eq_iff, Collides]

/-- Sequence numbers of one boot with the same upper half give different identities. -/
theorem seq_eq_of_collides {a : Origin} {seq : UInt64}
    (hhalf : a.seq.toNat / 256 ^ 4 = seq.toNat / 256 ^ 4) (h : a.Collides { a with seq := seq }) :
    a.seq = seq := by
  unfold Collides bytes at h
  simp only [BigEndian.bytes_add 4 4, hhalf, ← List.append_assoc _ (BigEndian.bytes 4 _)] at h
  have hlow := Id128.eq_of_collide (by simp) (by simp) h
  exact UInt64.toNat_inj.mp (eq_of_bytes_eq hhalf hlow)

theorem bytes_injective : Function.Injective bytes := by
  intro a b h
  unfold bytes at h
  obtain ⟨h, htype⟩ := List.append_inj' h (by simp)
  obtain ⟨h, hseq⟩ := List.append_inj' h (by simp)
  obtain ⟨h, hboot⟩ := List.append_inj' h (by simp [Id128.toBytes_eq])
  obtain ⟨hsource, hworker⟩ := List.append_inj' h (by simp [Id128.toBytes_eq])
  have hseq : a.seq = b.seq :=
    UInt64.toNat_inj.mp (bytes_inj a.seq.toNat_lt b.seq.toNat_lt hseq)
  have hcode : a.type.code = b.type.code :=
    UInt16.toNat_inj.mp (bytes_inj a.type.code.toNat_lt b.type.code.toNat_lt htype)
  have htype : some a.type = some b.type :=
    (ObsType.ofCode?_eq_some.mpr hcode).symm.trans (ObsType.ofCode?_eq_some.mpr rfl)
  rw [Origin.mk.injEq]
  exact ⟨Id128.toBytes_injective hsource, Id128.toBytes_injective hworker,
    Id128.toBytes_injective hboot, hseq, Option.some.inj htype⟩

end Origin

/-- Where the observation stands in its stream. -/
def Observation.origin (o : Observation) : Origin :=
  ⟨o.source.raw, o.worker.raw, o.boot.raw, o.seq, o.type⟩

/-- The observation with the identity that is derived for it. -/
def Observation.mint (o : Observation) : Observation :=
  { o with id := deriveObservationId o.source.raw o.worker.raw o.boot.raw o.seq o.type }

theorem Observation.fields_withId (o : Observation) (i : ObservationId) :
    { o with id := i }.fields = o.fields := rfl

theorem Observation.fields_mint (o : Observation) : o.mint.fields = o.fields := fields_withId o _

/-- The identity is the derived one. -/
def Observation.Minted (o : Observation) : Prop := o.id = o.origin.id

theorem Observation.minted_withId (o : Observation) {i : ObservationId} (hi : i = o.origin.id) :
    { o with id := i }.Minted := hi

theorem Observation.minted_mint (o : Observation) : o.mint.Minted := o.minted_withId rfl

/-- The dedup step drops what has the identity of an accepted observation. -/
theorem Coordinator.ingest_duplicate_iff (c : Coordinator) (o : Observation) :
    (c.ingest o).2.duplicateTotal = c.duplicateTotal + 1 ↔ ∃ o', c.accepted[o.id]? = some o' := by
  rcases c.ingest_cases o with ⟨hsome, -, hnext⟩ | ⟨hnone, -, -, hnext⟩ | ⟨hnone, -, a, -, -, hnext⟩
  · simp [hnext, hsome, duplicated]
  · simp [hnext, hnone, rejected]
  · simp [hnext, hnone, admitted]

/-- A minted observation is dropped as a duplicate when an accepted one collides with it. -/
theorem Accounted.duplicate_iff {log : List (Observation × IngestResult)} {c : Coordinator}
    (h : Accounted log c) (hlog : ∀ p ∈ log, p.1.Minted) {o : Observation} (ho : o.Minted) :
    (c.ingest o).2.duplicateTotal = c.duplicateTotal + 1 ↔
      ∃ o' ∈ c.allAccepted, o'.origin.Collides o.origin := by
  have hminted : ∀ o' ∈ c.allAccepted, o'.Minted := fun o' ho' => by
    obtain ⟨p, hp, rfl⟩ := List.mem_map.mp (h.accepted_perm.mem_iff.mp ho')
    exact hlog p (List.mem_filter.mp hp).1
  rw [c.ingest_duplicate_iff o]
  constructor
  · rintro ⟨o', ho'⟩
    have hmem := Coordinator.mem_allAccepted.mpr ⟨_, ho'⟩
    refine ⟨o', hmem, (Origin.id_eq_iff _ _).mp ?_⟩
    rw [← hminted o' hmem, ← ho, h.own_id _ o' ho']
  · rintro ⟨o', hmem, hcollides⟩
    obtain ⟨id, ho'⟩ := Coordinator.mem_allAccepted.mp hmem
    have hid := (Origin.id_eq_iff _ _).mpr hcollides
    rw [← hminted o' hmem, ← ho, h.own_id id o' ho'] at hid
    exact ⟨o', hid ▸ ho'⟩

/-- Derived identities tell two origins apart unless both hashes of their bytes collide, which
they do not when the bytes differ in four places in a row or fewer. A new observation is
dropped as a duplicate just when it collides with an accepted one. -/
theorem derivedIds_distinct_iff (a b : Origin) :
    ((a.id = b.id → a = b) ↔ a = b ∨ ¬ a.Collides b) ∧
      (a.bytes = b.bytes → a = b) ∧
      (∀ x u v y, a.bytes = x ++ u ++ y → b.bytes = x ++ v ++ y → u.length = v.length →
        u.length ≤ 4 → u ≠ v → ¬ a.Collides b) ∧
      (∀ seq : UInt64, a.seq.toNat / 2 ^ 32 = seq.toNat / 2 ^ 32 →
        a.id = ({ a with seq := seq } : Origin).id → a.seq = seq) ∧
      ∀ ops, (∀ p ∈ ingestLog (coordinatorMachine.trace {} ops), p.1.Minted) →
        ∀ o : Observation, o.Minted →
          let c := coordinatorMachine.run {} ops
          ((c.ingest o).2.duplicateTotal = c.duplicateTotal + 1 ↔
            ∃ o' ∈ c.allAccepted, o'.origin.Collides o.origin) := by
  refine ⟨?_, fun h => Origin.bytes_injective h, fun x u v y ha hb hlen hshort hne h => ?_,
    fun seq hhalf h => ?_, fun ops hlog o ho => ?_⟩
  · rw [Origin.id_eq_iff]
    tauto
  · unfold Origin.Collides at h
    rw [ha, hb] at h
    exact hne (Id128.eq_of_collide hlen hshort h)
  · exact Origin.seq_eq_of_collides hhalf ((Origin.id_eq_iff _ _).mp h)
  · exact (accounted_run ops).duplicate_iff hlog ho

/-- Two sequence numbers of one boot that collide. -/
theorem not_distinct_collidingSequences :
    ¬ ∀ a b : Origin, a.id = b.id → a = b := by
  intro h
  have hcollide := h ⟨⟨0, 1⟩, ⟨0, 2⟩, ⟨0, 3⟩, 0xf37e98a8d3fb0910, .request⟩
    ⟨⟨0, 1⟩, ⟨0, 2⟩, ⟨0, 3⟩, 0x5bb8c941c1a9a0b3, .request⟩
    ((Origin.id_eq_iff _ _).mpr (by decide +kernel))
  revert hcollide
  decide

end ServingObservatory
