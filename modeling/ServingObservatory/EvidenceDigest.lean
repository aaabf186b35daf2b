import ServingObservatory.ObservationCanonical
import ServingObservatory.ObservationSize
import ServingObservatory.ReplayOrder

/-!
# What the evidence digest fingerprints

The hashed bytes are a count and the entries of the evidence in identity order. An
entry is a length and a payload, so the bytes can be cut into entries in one way, and
a payload determines its observation, floats by their bits.
-/
namespace ServingObservatory
open Std BigEndian Decoding BinaryWriter BinaryReader Sorting

/-- Absent optional parts hold their defaults. -/
structure Observation.AbsentAtDefault (o : Observation) : Prop where
  obsTs : o.hasObsTs = false → o.obsTs = 0
  recvTs : o.hasRecvTs = false → o.recvTs = 0
  health : o.hasHealth = false → o.health = .unknown
  confidence : o.hasConfidence = false → o.confidence = ⟨0⟩

/-- A wire form whose lengths fit, and whose payload fits behind a length. -/
def WireObservation.FitsEntry (w : WireObservation) : Prop := w.Sized ∧ w.spell.length < 2 ^ 32

/-- The payload behind its length. -/
def WireObservation.entry (w : WireObservation) : Bytes := prefixed w.spell

theorem WireObservation.code_entry : PrefixCode FitsEntry entry := by
  intro w w' r r' hw hw' h
  obtain ⟨hspell, hr⟩ := prefixCode_of_reads reads_prefixed hw.2 hw'.2 h
  exact ⟨(code hw.1 hw'.1 (congrArg (· ++ []) hspell)).1, hr⟩

theorem WireObservation.entry_ne_nil (w : WireObservation) : w.entry ≠ [] := fun h => by
  have hlen := congrArg List.length h
  simp [entry, prefixed] at hlen

/-- Every length of the observation and that of its payload fit in 32 bits. -/
def Observation.FitsEntry (o : Observation) : Prop :=
  o.Sized ∧ (WireObservation.ofObservation o).spell.length < 2 ^ 32

theorem Observation.fitsEntry_of_no_fields {o : Observation} (hfields : o.fields = ∅)
    (hclock : o.clockDomain = []) : o.FitsEntry := by
  refine ⟨⟨by simp [hclock], by simp [hfields], by simp [hfields]⟩, ?_⟩
  rw [WireObservation.length_spell, Observation.encodedSize, hfields, hclock]
  split_ifs <;> decide

theorem WireObservation.fitsEntry_ofObservation {o : Observation} (h : o.FitsEntry)
    (habsent : o.AbsentAtDefault) : (ofObservation o).FitsEntry := by
  obtain ⟨h₀, h₁, h₂, h₃, -⟩ := hasPart_presence o
  refine ⟨⟨h.1.clockDomain, ⟨?_, ?_, ?_, ?_⟩, ?_, ?_⟩, h.2⟩
  · exact fun hp => habsent.obsTs (h₀.symm.trans hp)
  · exact fun hp => habsent.recvTs (h₁.symm.trans hp)
  · exact fun hp => congrArg SourceHealth.code (habsent.health (h₂.symm.trans hp))
  · exact fun hp => habsent.confidence (h₃.symm.trans hp)
  · simpa [ofObservation] using h.1.count
  · intro p hp
    obtain ⟨q, hq, rfl⟩ := List.mem_map.mp hp
    obtain ⟨hkey, hvalue⟩ := h.1.fields q hq
    exact ⟨hkey, (WireValue.sized_ofValue q.2).mpr hvalue⟩

theorem emits_obsEntry (o : Observation) :
    Emits (writeObsEntry o) o.FitsEntry (WireObservation.ofObservation o).entry :=
  emits_of_except (encodeObservationPayload_eq_ok_iff o) (emits_bytes _)

theorem writtenBytes_eq_ok_iff {m : BinaryWriter Unit} {p : Prop} {out : Bytes}
    (h : Emits m p out) (b : Bytes) : writtenBytes m = .ok b ↔ p ∧ b = out := h.run_eq_ok_iff b

section Digest
variable [Platform]

/-- The bytes of the digest: the count and the entries in identity order. -/
theorem evidenceBytes_eq_ok_iff (l : List Observation) (b : Bytes) :
    evidenceBytes l = .ok b ↔ (∀ o ∈ l, o.FitsEntry) ∧
      b = bytes 8 (UInt64.ofNat l.length).toNat ++
        ((sorter.sort idLt l).map WireObservation.ofObservation).flatMap WireObservation.entry := by
  have hemits := (writes_u64 (UInt64.ofNat (sorter.sort idLt l).length)).emits.bind
    (Emits.forM emits_obsEntry (sorter.sort idLt l))
  rw [evidenceBytes, writtenBytes_eq_ok_iff hemits, sorter.length_sort, List.flatMap_map]
  simp [sorter.mem_sort]

/-- Lists with the same evidence bytes hold the same observations. -/
theorem perm_of_evidenceBytes {l l' : List Observation} (hl : ∀ o ∈ l, o.AbsentAtDefault)
    (hl' : ∀ o ∈ l', o.AbsentAtDefault) {b : Bytes} (hb : evidenceBytes l = .ok b)
    (hb' : evidenceBytes l' = .ok b) : l.Perm l' := by
  obtain ⟨hfits, rfl⟩ := (evidenceBytes_eq_ok_iff l b).mp hb
  obtain ⟨hfits', heq⟩ := (evidenceBytes_eq_ok_iff l' _).mp hb'
  have hentries := (List.append_inj heq (by simp)).2
  have hforms : ∀ l : List Observation, (∀ o ∈ l, o.FitsEntry) → (∀ o ∈ l, o.AbsentAtDefault) →
      ∀ w ∈ (sorter.sort idLt l).map WireObservation.ofObservation, w.FitsEntry := by
    intro l hfits habsent w hw
    obtain ⟨o, ho, rfl⟩ := List.mem_map.mp hw
    have hmem := sorter.mem_sort.mp ho
    exact WireObservation.fitsEntry_ofObservation (hfits o hmem) (habsent o hmem)
  have hmap := WireObservation.code_entry.flatMap_inj WireObservation.entry_ne_nil
    (hforms l hfits hl) (hforms l' hfits' hl') hentries
  have hsort : sorter.sort idLt l = sorter.sort idLt l' := by
    have hview := congrArg (List.map WireObservation.observation) hmap
    simpa [List.map_map, Function.comp_def, WireObservation.observation_ofObservation] using hview
  exact (sorter.perm idLt l).symm.trans (hsort ▸ sorter.perm idLt l')

/-- The bytes that are hashed determine the set of observations, and nothing else. -/
theorem evidenceBytes_eq_iff_perm (l l' : List Observation)
    (hid : (l.map Observation.id).Nodup) (hl : ∀ o ∈ l, o.AbsentAtDefault)
    (hl' : ∀ o ∈ l', o.AbsentAtDefault) (b : Bytes)
    (hb : evidenceBytes l = .ok b) : evidenceBytes l' = .ok b ↔ l.Perm l' := by
  constructor
  · intro hb'
    exact perm_of_evidenceBytes hl hl' hb hb'
  · intro hperm
    rw [← evidenceBytes_perm hperm hid]
    exact hb

end Digest

/-- Two observations, in both orders. -/
theorem evidenceBytes_eq_iff_perm_pair :
    let x : Observation := { id := ⟨⟨0, 1⟩⟩, hasObsTs := true, obsTs := 7 }
    let y : Observation := { id := ⟨⟨0, 2⟩⟩, provenance := .measured }
    ∃ b, @evidenceBytes Platform.machine [y, x] = .ok b ∧
      (@evidenceBytes Platform.machine [x, y] = .ok b ↔ [y, x].Perm [x, y]) := by
  intro x y
  have hfits : ∀ o ∈ [y, x], o.FitsEntry := by
    intro o ho
    rcases List.mem_pair.mp ho with rfl | rfl <;> exact Observation.fitsEntry_of_no_fields rfl rfl
  have habsent : ∀ o ∈ [y, x], o.AbsentAtDefault := by
    intro o ho
    rcases List.mem_pair.mp ho with rfl | rfl <;> constructor <;> decide
  obtain ⟨b, hb⟩ : ∃ b, @evidenceBytes Platform.machine [y, x] = .ok b :=
    ⟨_, (@evidenceBytes_eq_ok_iff Platform.machine _ _).mpr ⟨hfits, rfl⟩⟩
  refine ⟨b, hb, ?_⟩
  exact @evidenceBytes_eq_iff_perm Platform.machine _ _ (by decide) habsent
    (fun o ho => habsent o (by simpa [or_comm] using ho)) b hb

end ServingObservatory
