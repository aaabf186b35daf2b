import ServingObservatory.ArchiveWriting

/-!
# Saving and loading archives

The form of an archive is one that the reader accepts when the registry is within its
limit and the fields of the evidence are within those of the payload reader. The other
limits follow from the 32 bits of the length of the body.
-/
namespace ServingObservatory
open Std BigEndian Decoding BinaryWriter BinaryReader

/-- What the payload reader demands of the fields. -/
structure Observation.Readable (o : Observation) : Prop where
  count : o.fields.size ≤ 16777216
  finite : ∀ k v, (k, FieldValue.f64 v) ∈ o.fields.toList → v.isFinite = true

theorem Observation.Encodable.readable {o : Observation} (h : o.Encodable) : o.Readable where
  count := h.count
  finite _ _ hkv := (h.fields _ hkv).2

theorem Observation.Encodable.absentAtDefault {o : Observation} (h : o.Encodable) :
    o.AbsentAtDefault := ⟨h.obsTs, h.recvTs, h.health, h.confidence⟩

theorem FieldValue.encodable_of_sized {v : FieldValue} (h : v.Sized)
    (hfinite : ∀ x, v = .f64 x → x.isFinite = true) : v.Encodable := by
  cases v with
  | f64 x => exact hfinite x rfl
  | str v => exact h
  | bytes v => exact h
  | _ => trivial

/-- A recovered observation that was written can be read when its fields can. -/
theorem Observation.encodable_recovered {o : Observation} (h : o.Sized) (hr : o.Readable) :
    o.recovered.Encodable :=
  have habsent := o.absentAtDefault_recovered
  { obsTs := habsent.obsTs
    recvTs := habsent.recvTs
    health := habsent.health
    confidence := habsent.confidence
    clockDomain := h.clockDomain
    count := hr.count
    fields := fun p hp => ⟨(h.fields p hp).1, FieldValue.encodable_of_sized (h.fields p hp).2
      fun x hx => hr.finite p.1 x (by rw [← hx]; exact hp)⟩ }

/-- The form of an observation that was written is accepted when its fields are readable. -/
theorem WireObservation.validEntry_iff {o : Observation} (h : o.FitsEntry) :
    (ofObservation o.recovered).ValidEntry ↔ o.Readable := by
  have hlen : (ofObservation o.recovered).spell.length < 2 ^ 32 :=
    (congrArg List.length (spell_recovered o)).trans_lt h.2
  constructor
  · rintro ⟨hvalid, -⟩
    have henc := encodable_observation hvalid
    rw [observation_ofObservation] at henc
    exact ⟨henc.count, fun k v hkv => (henc.fields _ hkv).2⟩
  · intro hr
    exact ⟨valid_ofObservation (Observation.encodable_recovered h.1 hr), hlen⟩

variable {ρ : Type}

/-- A lower bound on the parts bounds the number of parts. -/
theorem mul_length_le_sum {α : Type} (l : List α) (f : α → ℕ) (n : ℕ) (h : ∀ x ∈ l, n ≤ f x) :
    n * l.length ≤ (l.map f).sum := by
  have hle := List.card_nsmul_le_sum (l.map f) n (by simpa using h)
  rwa [List.length_map, smul_eq_mul, mul_comm] at hle

theorem Observation.entrySize_ge (o : Observation) : 112 ≤ o.entrySize := by
  unfold entrySize encodedSize
  omega

namespace ArchiveContents
variable {a : ArchiveContents ρ}

/-- The three counts are small against the size of the body. -/
theorem counts_le (a : ArchiveContents ρ) : 91 * a.registry.length ≤ a.bodySize ∧
    112 * a.accepted.length ≤ a.bodySize ∧ 112 * a.stale.length ≤ a.bodySize := by
  have hreg := mul_length_le_sum a.registry SourceAuthority.encodedSize 91
    fun s _ => Nat.le_add_right _ _
  have hacc := mul_length_le_sum a.accepted Observation.entrySize 112 fun o _ => o.entrySize_ge
  have hst := mul_length_le_sum a.stale (fun p => p.1.entrySize + (4 + p.2.length)) 112
    fun p _ => p.1.entrySize_ge.trans (Nat.le_add_right _ _)
  unfold bodySize
  omega

/-- Every entry is shorter than the body. -/
theorem entrySize_le (a : ArchiveContents ρ) : (∀ o ∈ a.accepted, o.encodedSize ≤ a.bodySize) ∧
    ∀ p ∈ a.stale, p.1.encodedSize ≤ a.bodySize ∧ p.2.length ≤ a.bodySize := by
  constructor
  · intro o ho
    have hle := List.single_le_sum (by simp) _ (List.mem_map_of_mem (f := Observation.entrySize) ho)
    unfold Observation.entrySize at hle
    unfold bodySize Observation.entrySize
    omega
  · intro p hp
    have hle := List.single_le_sum (by simp) _
      (List.mem_map_of_mem (f := fun p : Observation × Str => p.1.entrySize + (4 + p.2.length)) hp)
    unfold Observation.entrySize at hle
    unfold bodySize Observation.entrySize
    constructor <;> omega

/-- Evidence that can be encoded, in a body of 32 bits, can be written. -/
theorem writable_of_bodySize (hacc : ∀ o ∈ a.accepted, o.Encodable)
    (hstale : ∀ p ∈ a.stale, p.1.Encodable) (hsize : a.bodySize < 2 ^ 32) : a.Writable := by
  obtain ⟨hreg, haccepted, hst⟩ := a.counts_le
  obtain ⟨hentries, hstales⟩ := a.entrySize_le
  refine ⟨by omega, by omega, fun o ho => ⟨(hacc o ho).sized, ?_⟩, by omega, fun p hp => ?_⟩
  · rw [WireObservation.length_spell]
    exact (hentries o ho).trans_lt hsize
  · refine ⟨⟨(hstale p hp).sized, ?_⟩, (hstales p hp).2.trans_lt hsize⟩
    rw [WireObservation.length_spell]
    exact (hstales p hp).1.trans_lt hsize

end ArchiveContents

namespace WireArchive
variable {a : ArchiveContents ρ}

/-- The form of an archive that was written, within 32 bits, is accepted when the
registry is within its limit and the evidence is readable. -/
theorem valid_ofContents_iff (hw : a.Writable) (hid : (a.accepted.map Observation.id).Nodup)
    (hsize : a.bodySize < 2 ^ 32) : (ofContents a).Valid ↔ a.registry.length ≤ 1000000 ∧
      (∀ o ∈ a.accepted, o.Readable) ∧ ∀ p ∈ a.stale, p.1.Readable := by
  have haccepted : (∀ w ∈ (ofContents a).accepted, w.ValidEntry) ↔
      ∀ o ∈ a.accepted, o.Readable := by
    refine List.forall_mem_map.trans (forall₂_congr fun o ho => ?_)
    exact WireObservation.validEntry_iff (hw.accepted o ho)
  have hstale : (∀ p ∈ (ofContents a).stale, p.1.ValidEntry ∧ p.2.length < 2 ^ 32) ↔
      ∀ p ∈ a.stale, p.1.Readable := by
    refine List.forall_mem_map.trans (forall₂_congr fun p hp => ?_)
    rw [WireObservation.validEntry_iff (hw.stale p hp).1]
    exact and_iff_left (hw.stale p hp).2
  constructor
  · intro h
    refine ⟨?_, haccepted.mp h.accepted, hstale.mp h.stale⟩
    simpa [ofContents] using h.registry_count
  · rintro ⟨hreg, hacc, hst⟩
    obtain ⟨-, hacc_count, hst_count⟩ := a.counts_le
    refine
      { registry_count := by simpa [ofContents] using hreg
        registry := List.forall_mem_map.mpr fun s _ => WireAuthority.valid_ofAuthority s
        accepted_count := ?_
        accepted := haccepted.mpr hacc
        distinct := ?_
        stale_count := ?_
        stale := hstale.mpr hst
        block := ?_ }
    · simp only [ofContents, List.length_map]
      omega
    · simp only [ofContents, List.map_map]
      exact hid
    · simp only [ofContents, List.length_map]
      omega
    · exact a.length_block.trans_lt (by decide)

theorem accepted_sections_ofContents (a : ArchiveContents ρ) :
    (ofContents a).sections.accepted = a.accepted.map Observation.recovered := by
  simp only [sections, ofContents, List.map_map, Function.comp_def,
    WireObservation.observation_ofObservation]

theorem stale_sections_ofContents (a : ArchiveContents ρ) :
    (ofContents a).sections.stale = a.stale.map fun p => (p.1.recovered, p.2) := by
  simp only [sections, ofContents, List.map_map, Function.comp_def,
    WireObservation.observation_ofObservation]

end WireArchive

theorem copy32_append (front back : Bytes) (d : Digest) :
    copy32 (front ++ (d.toList ++ back)) front.length = d := by
  apply Vector.ext
  intro i hi
  simp [copy32, List.getD_eq_getElem?_getD, List.getElem?_append_right, List.getElem?_append_left]

section Loading
variable [Inhabited ρ]

/-- The block holds the four digests one after the other. -/
theorem digests_contents_ofContents (a : ArchiveContents ρ) :
    ((WireArchive.ofContents a).sections.contents : ArchiveContents ρ).digests = a.digests := by
  have hblock : (WireArchive.ofContents a).sections.dbytes =
      a.storedEvidenceDigest.toList ++ (a.storedTraceDigest.toList ++
        (a.storedExplanationDigest.toList ++ (a.storedAggregateDigest.toList ++ []))) := by
    simp [WireArchive.sections, WireArchive.ofContents, ArchiveContents.block,
      ArchiveContents.digests]
  have h₀ := copy32_append [] (a.storedTraceDigest.toList ++
    (a.storedExplanationDigest.toList ++ (a.storedAggregateDigest.toList ++ [])))
    a.storedEvidenceDigest
  have h₁ := copy32_append a.storedEvidenceDigest.toList (a.storedExplanationDigest.toList ++
    (a.storedAggregateDigest.toList ++ [])) a.storedTraceDigest
  have h₂ := copy32_append (a.storedEvidenceDigest.toList ++ a.storedTraceDigest.toList)
    (a.storedAggregateDigest.toList ++ []) a.storedExplanationDigest
  have h₃ := copy32_append (a.storedEvidenceDigest.toList ++ (a.storedTraceDigest.toList ++
    a.storedExplanationDigest.toList)) [] a.storedAggregateDigest
  simp only [List.append_assoc, List.length_append, Vector.length_toList, List.length_nil,
    List.nil_append, Nat.reduceAdd] at h₀ h₁ h₂ h₃
  simp only [ArchiveContents.digests, ArchiveSections.contents, hblock, h₀, h₁, h₂, h₃]

/-- Where nothing is lost in writing, the archive is recovered whole. -/
theorem contents_ofContents {a : ArchiveContents ρ} (hacc : ∀ o ∈ a.accepted, o.AbsentAtDefault)
    (hstale : ∀ p ∈ a.stale, p.1.AbsentAtDefault)
    (hts : ∀ s ∈ a.registry, s.hasLastTs = false → s.lastObsTs = 0) :
    ((WireArchive.ofContents a).sections.contents : ArchiveContents ρ) =
      { a with verifiedReplay := default, replayMatch := false } := by
  have hregistry : (WireArchive.ofContents a).sections.registry = a.registry := by
    simp only [WireArchive.sections, WireArchive.ofContents, List.map_map]
    exact (List.map_congr_left fun s hs => WireAuthority.authority_ofAuthority (hts s hs)).trans
      (List.map_id _)
  have haccepted : (WireArchive.ofContents a).sections.accepted = a.accepted := by
    rw [WireArchive.accepted_sections_ofContents]
    exact (List.map_congr_left fun o ho => Observation.recovered_eq (hacc o ho)).trans
      (List.map_id _)
  have hstaleList : (WireArchive.ofContents a).sections.stale = a.stale := by
    rw [WireArchive.stale_sections_ofContents]
    refine (List.map_congr_left fun p hp => ?_).trans (List.map_id _)
    exact Prod.ext (Observation.recovered_eq (hstale p hp)) rfl
  have hdigests := digests_contents_ofContents a
  simp only [ArchiveContents.digests, List.cons.injEq, and_true] at hdigests
  obtain ⟨hev, htr, hex, hag⟩ := hdigests
  simp only [ArchiveSections.contents] at hev htr hex hag ⊢
  rw [hregistry, haccepted, hstaleList, hev, htr, hex, hag]
  rfl

/-- The bytes that are written for an archive are loaded, with a verified replay, as that
archive. -/
theorem archive_roundTrip (R : Replayer ρ) (a : ArchiveContents ρ) (rp : ρ)
    (hid : (a.accepted.map Observation.id).Nodup) (hreg : a.registry.length ≤ 1000000)
    (hacc : ∀ o ∈ a.accepted, o.Encodable) (hstale : ∀ p ∈ a.stale, p.1.Encodable)
    (hts : ∀ s ∈ a.registry, s.hasLastTs = false → s.lastObsTs = 0)
    (hsize : a.bodySize < 2 ^ 32) (hrp : R.replay a.accepted = .ok rp)
    (hdigests : a.digests = R.digests rp) :
    ∃ file, archiveFile a = .ok file ∧
      loadArchive R file true = .ok { a with verifiedReplay := rp, replayMatch := true } := by
  have hw := ArchiveContents.writable_of_bodySize hacc hstale hsize
  have hvalid := (WireArchive.valid_ofContents_iff hw hid hsize).mpr
    ⟨hreg, fun o ho => (hacc o ho).readable, fun p hp => (hstale p hp).readable⟩
  have hcontents := contents_ofContents (fun o ho => (hacc o ho).absentAtDefault)
    (fun p hp => (hstale p hp).absentAtDefault) hts
  have haccepted : (WireArchive.ofContents a).sections.accepted = a.accepted :=
    congrArg ArchiveContents.accepted hcontents
  have hmatch := (digests_contents_ofContents a).trans hdigests
  refine ⟨_, (archiveFile_eq_ok_iff a _).mpr ⟨hw, rfl⟩, ?_⟩
  refine (loadArchive_eq_ok_iff R _ _).mpr ⟨_, hvalid, a.length_block,
    (WireArchive.length_spell a).trans_lt hsize, rfl, rp, haccepted ▸ hrp, hmatch.symm, ?_⟩
  rw [ArchiveContents.verified_eq hmatch.symm, hcontents]

end Loading

/-- One authority, one accepted observation and its duplicate. -/
theorem archive_roundTrip_sample :
    let o : Observation := { id := ⟨⟨0, 1⟩⟩, hasObsTs := true, obsTs := 7 }
    let s : SourceAuthority := { lastSeq := 1, registered := true }
    ∃ (a : ArchiveContents ReplayResult) (file : Bytes) (rp : ReplayResult), a.registry = [s] ∧
      a.accepted = [o] ∧ a.stale = [(o, lit "duplicate")] ∧ archiveFile a = .ok file ∧
      loadArchive (@replayer Platform.machine) file true =
        .ok { a with verifiedReplay := rp, replayMatch := true } := by
  intro o s
  let _ := Platform.machine
  have hfields : o.fields.toList = [] := by decide
  have henc : o.Encodable :=
    { obsTs := nofun
      recvTs := fun _ => rfl
      health := fun _ => rfl
      confidence := fun _ => rfl
      clockDomain := by decide
      count := by decide
      fields := by simp [hfields] }
  have hpayload : o.encodedSize = 116 := by
    simp [Observation.encodedSize, hfields, o]
  obtain ⟨rp, hrp⟩ := exists_replay_singleton (o := o)
    (Observation.fitsEntry_of_no_fields rfl rfl) rfl
  let a : ArchiveContents ReplayResult :=
    { epoch := 1, registry := [s], accepted := [o], stale := [(o, lit "duplicate")],
      storedEvidenceDigest := rp.evidenceDigest, storedTraceDigest := rp.traceDigest,
      storedExplanationDigest := rp.explanationDigest,
      storedAggregateDigest := rp.aggregateDigest, verifiedReplay := rp }
  have hsize : a.bodySize < 2 ^ 32 := by
    simp [a, ArchiveContents.bodySize, Observation.entrySize, hpayload,
      SourceAuthority.encodedSize, s, lit]
  obtain ⟨file, hfile, hload⟩ := archive_roundTrip replayer a rp (by simp [a]) (by simp [a])
    (by simpa [a] using henc) (by simpa [a] using henc) (by simp [a, s]) hsize hrp rfl
  exact ⟨a, file, rp, rfl, rfl, rfl, hfile, hload⟩

end ServingObservatory
