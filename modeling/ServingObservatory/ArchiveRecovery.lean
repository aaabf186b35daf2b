import ServingObservatory.ArchiveRoundTrip
import ServingObservatory.LiveIndex
import ServingObservatory.RecoveredReplay

/-!
# When a saved archive can be loaded

The coordinator takes any observation, and the writer writes floats that are not finite,
more fields than the reader takes, any number of sources and bodies of any length. The
loader rejects each of these, and nothing else that was saved.
-/
namespace ServingObservatory
open Std BigEndian Decoding BinaryWriter BinaryReader

/-- The bytes of the archive body of a state. -/
def Coordinator.archiveSize (c : Coordinator) : ℕ :=
  167 + (c.registrySnapshot.map SourceAuthority.encodedSize).sum +
    (c.allAccepted.map Observation.entrySize).sum +
    (c.stale.map fun p => p.1.entrySize + (4 + p.2.length)).sum

section Saving
variable {ρ : Type}

/-- What a successful save has done. -/
theorem saveArchive_eq_ok_iff (R : Replayer ρ) (c : Coordinator) (a : ArchiveContents ρ)
    (file : Bytes) : saveArchive R c = .ok (a, file) ↔
      buildArchive R c = .ok a ∧ a.Writable ∧ file = fileOf (WireArchive.ofContents a).spell := by
  constructor
  · intro h
    obtain ⟨a', hbuild, h⟩ := bind_eq_ok.mp h
    obtain ⟨file', hfile, h⟩ := bind_eq_ok.mp h
    cases h
    exact ⟨hbuild, (archiveFile_eq_ok_iff a file).mp hfile⟩
  · rintro ⟨hbuild, hfile⟩
    exact bind_eq_ok.mpr ⟨a, hbuild, bind_eq_ok.mpr ⟨file, (archiveFile_eq_ok_iff a file).mpr hfile,
      rfl⟩⟩

theorem WireArchive.fits_ofContents {a : ArchiveContents ρ} (h : a.Writable) :
    (ofContents a).Fits where
  registry_count := by simpa [ofContents] using h.registry_count
  registry := List.forall_mem_map.mpr fun s _ => WireAuthority.valid_ofAuthority s
  accepted_count := by simpa [ofContents] using h.accepted_count
  accepted := List.forall_mem_map.mpr fun o ho => WireObservation.fitsEntry_ofObservation
    (Observation.fitsEntry_recovered.mpr (h.accepted o ho)) o.absentAtDefault_recovered
  stale_count := by simpa [ofContents] using h.stale_count
  stale := List.forall_mem_map.mpr fun p hp => ⟨WireObservation.fitsEntry_ofObservation
    (Observation.fitsEntry_recovered.mpr (h.stale p hp).1) p.1.absentAtDefault_recovered,
    (h.stale p hp).2⟩
  block := a.length_block.trans_lt (by decide)

/-- A file that was written loads only as the form that was written. -/
theorem valid_of_load [Inhabited ρ] {R : Replayer ρ} {a a' : ArchiveContents ρ} (hw : a.Writable)
    (h : loadArchive R (fileOf (WireArchive.ofContents a).spell) true = .ok a') :
    (WireArchive.ofContents a).Valid ∧ a.bodySize < 2 ^ 32 := by
  obtain ⟨w, hvalid, -, hlen, hfile, -⟩ := (loadArchive_eq_ok_iff R _ a').mp h
  have hspell := fileOf_inj hfile
  have heq := (WireArchive.code (WireArchive.fits_ofContents hw) hvalid.fits
    (congrArg (· ++ []) hspell)).1
  rw [heq, ← WireArchive.length_spell a, heq]
  exact ⟨hvalid, hlen⟩

end Saving

section Recovery
variable [Platform] {a : ArchiveContents ReplayResult}

/-- A written archive of evidence of distinct identities loads when its form is accepted. -/
theorem exists_load_iff {rp : ReplayResult} (hw : a.Writable)
    (hid : (a.accepted.map Observation.id).Nodup) (hrp : replay a.accepted = .ok rp)
    (hdigests : a.digests = rp.digests) :
    (∃ a', loadArchive replayer (fileOf (WireArchive.ofContents a).spell) true = .ok a') ↔
      a.bodySize < 2 ^ 32 ∧ a.registry.length ≤ 1000000 ∧ (∀ o ∈ a.accepted, o.Readable) ∧
        ∀ p ∈ a.stale, p.1.Readable := by
  constructor
  · rintro ⟨a', hload⟩
    obtain ⟨hvalid, hsize⟩ := valid_of_load hw hload
    exact ⟨hsize, (WireArchive.valid_ofContents_iff hw hid hsize).mp hvalid⟩
  · rintro ⟨hsize, hlimits⟩
    have hvalid := (WireArchive.valid_ofContents_iff hw hid hsize).mpr hlimits
    obtain ⟨rp', hrp', hsame⟩ := replay_recovered hid hrp
    have hreplay : replayer.replay (WireArchive.ofContents a).sections.accepted = .ok rp' := by
      rw [WireArchive.accepted_sections_ofContents]
      exact hrp'
    have hmatch : replayer.digests rp' = ((WireArchive.ofContents a).sections.contents :
        ArchiveContents ReplayResult).digests := by
      rw [digests_contents_ofContents, hdigests, ← hsame]
      rfl
    exact ⟨_, (loadArchive_eq_ok_iff replayer _ _).mpr ⟨_, hvalid, a.length_block,
      (WireArchive.length_spell a).trans_lt hsize, rfl, rp', hreplay, hmatch, rfl⟩⟩

/-- One observation without a request is saved. -/
theorem exists_save_hello_ingest (hello : HelloPayload) (o : Observation)
    (hkey : keyOf hello.source hello.worker = keyOf o.source o.worker)
    (hadm : (SourceAuthority.install (Coordinator.helloObservation hello) hello.epoch 0).Admits o)
    (hfits : o.FitsEntry) (hnull : groupKey o = none) : ∃ (a : ArchiveContents ReplayResult)
      (file : Bytes), saveArchive replayer
        (coordinatorMachine.run {} [.registerHello hello, .ingest o]) = .ok (a, file) := by
  have haccepted := allAccepted_hello_ingest hello o hkey hadm
  have hrun := run_hello_ingest hello o hkey hadm
  have hstale : (coordinatorMachine.run {} [.registerHello hello, .ingest o]).stale = [] := by
    rw [hrun]
    rfl
  have hregistry : (coordinatorMachine.run {}
      [.registerHello hello, .ingest o]).registrySnapshot.length < 2 ^ 32 := by
    have hhello : (coordinatorMachine.next {} (.registerHello hello)).registry.byKey.size ≤ 1 := by
      rw [coordinatorMachine_next_registerHello]
      simp only [HelloPayload.registration, registryMachine, Machine.next,
        SourceRegistry.registerSource, ExtTreeMap.getElem?_empty]
      exact ExtTreeMap.size_insert_le
    have hinsert := ExtTreeMap.size_insert_le
      (t := (coordinatorMachine.next {} (.registerHello hello)).registry.byKey)
      (k := keyOf o.source o.worker) (v := (SourceAuthority.install
        (Coordinator.helloObservation hello) hello.epoch 0).advance o)
    rw [hrun, Coordinator.registrySnapshot, List.length_map, ExtTreeMap.length_toList]
    exact hinsert.trans_lt (by omega)
  obtain ⟨rp, hrp⟩ := exists_replay_singleton hfits hnull
  generalize coordinatorMachine.run {} [.registerHello hello, .ingest o] = c at *
  refine ⟨_, _, (saveArchive_eq_ok_iff replayer c _ _).mpr
    ⟨(buildArchive_eq_ok_iff replayer c _).mpr ⟨rp, haccepted ▸ hrp, rfl⟩, ?_, rfl⟩⟩
  refine ⟨hregistry, ?_, ?_, ?_, ?_⟩
  · simp [ArchiveContents.ofParts, haccepted]
  · simpa [ArchiveContents.ofParts, haccepted] using hfits
  · simp [ArchiveContents.ofParts, hstale]
  · simp [ArchiveContents.ofParts, hstale]

/-- In every state reached, an archive that was saved can be loaded exactly when the
registry is within the limit of the loader, the body within the 32 bits of its length,
and the fields of all ingested observations within the limits of the payload reader. -/
theorem saved_archive_loads_iff (ops : List CoordinatorOp) (a : ArchiveContents ReplayResult)
    (file : Bytes) (hsave : saveArchive replayer (coordinatorMachine.run {} ops) = .ok (a, file)) :
    (∃ a', loadArchive replayer file true = .ok a') ↔
      (coordinatorMachine.run {} ops).archiveSize < 2 ^ 32 ∧
        (coordinatorMachine.run {} ops).registry.byKey.size ≤ 1000000 ∧
          ∀ p ∈ ingestLog (coordinatorMachine.trace {} ops), p.1.Readable := by
  have hacc := accounted_run ops
  generalize coordinatorMachine.run {} ops = c at hsave hacc ⊢
  obtain ⟨hbuild, hw, rfl⟩ := (saveArchive_eq_ok_iff replayer c a file).mp hsave
  obtain ⟨rp, hrp, rfl⟩ := (buildArchive_eq_ok_iff replayer c a).mp hbuild
  have hreadable : (∀ p ∈ ingestLog (coordinatorMachine.trace {} ops), p.1.Readable) ↔
      (∀ o ∈ c.allAccepted, o.Readable) ∧ ∀ p ∈ c.stale, p.1.Readable := by
    have hlog : (∀ p ∈ ingestLog (coordinatorMachine.trace {} ops), p.1.Readable) ↔
        ∀ o ∈ (ingestLog (coordinatorMachine.trace {} ops)).map Prod.fst, o.Readable :=
      List.forall_mem_map.symm
    simp only [hlog, hacc.partition.mem_iff, List.forall_mem_append, List.forall_mem_map]
  have hregistry : c.registrySnapshot.length = c.registry.byKey.size := by
    rw [Coordinator.registrySnapshot, List.length_map, ExtTreeMap.length_toList]
  rw [exists_load_iff hw hacc.nodup_allAccepted hrp rfl, hreadable, ← hregistry]
  rfl

end Recovery

/-- A plain observation after its HELLO. -/
theorem saved_archive_loads_iff_plain :
    let ops : List CoordinatorOp :=
      [.registerHello { epoch := 1 }, .ingest { id := ⟨⟨0, 1⟩⟩, epoch := 1, seq := 1 }]
    ∃ (a : ArchiveContents ReplayResult) (file : Bytes),
      saveArchive (@replayer Platform.machine) (coordinatorMachine.run {} ops) = .ok (a, file) ∧
      ((∃ a', loadArchive (@replayer Platform.machine) file true = .ok a') ↔
        (coordinatorMachine.run {} ops).archiveSize < 2 ^ 32 ∧
          (coordinatorMachine.run {} ops).registry.byKey.size ≤ 1000000 ∧
            ∀ p ∈ ingestLog (coordinatorMachine.trace {} ops), p.1.Readable) := by
  intro ops
  let _ := Platform.machine
  let o : Observation := { id := ⟨⟨0, 1⟩⟩, epoch := 1, seq := 1 }
  have hfits : o.FitsEntry := Observation.fitsEntry_of_no_fields rfl rfl
  obtain ⟨a, file, hsave⟩ := exists_save_hello_ingest { epoch := 1 } o rfl
    ⟨by decide, rfl, rfl, rfl, .inl (by decide)⟩ hfits (by decide)
  exact ⟨a, file, hsave, saved_archive_loads_iff ops a file hsave⟩

/-- An accepted observation with a float that is infinite. -/
def infiniteField : Observation :=
  { id := ⟨⟨0, 1⟩⟩, epoch := 1, seq := 1,
    fields := (∅ : ExtTreeMap Str FieldValue).insert FieldKeys.gpuMs
      (.f64 ⟨0x7FF0000000000000⟩) }

theorem toList_fields_infiniteField :
    infiniteField.fields.toList = [(FieldKeys.gpuMs, .f64 ⟨0x7FF0000000000000⟩)] := by
  decide

theorem fitsEntry_infiniteField : infiniteField.FitsEntry := by
  refine ⟨⟨by decide, by decide, ?_⟩, ?_⟩
  · rw [toList_fields_infiniteField]
    simp [FieldKeys.gpuMs, lit, FieldValue.Sized]
  · rw [WireObservation.length_spell, Observation.encodedSize, toList_fields_infiniteField]
    decide

theorem admits_infiniteField :
    (SourceAuthority.install (Coordinator.helloObservation { epoch := 1 }) 1 0).Admits
      infiniteField := ⟨by decide, rfl, rfl, rfl, .inl (by decide)⟩

/-- The infinite float is accepted and saved, and then the archive cannot be loaded. -/
theorem not_loads_infiniteField : ∃ (a : ArchiveContents ReplayResult) (file : Bytes),
    saveArchive (@replayer Platform.machine)
      (coordinatorMachine.run {} [.registerHello { epoch := 1 }, .ingest infiniteField]) =
        .ok (a, file) ∧
    ¬ ∃ a', loadArchive (@replayer Platform.machine) file true = .ok a' := by
  let _ := Platform.machine
  have haccepted := allAccepted_hello_ingest { epoch := 1 } infiniteField rfl admits_infiniteField
  obtain ⟨a, file, hsave⟩ := exists_save_hello_ingest { epoch := 1 } infiniteField rfl
    admits_infiniteField fitsEntry_infiniteField (by decide)
  refine ⟨a, file, hsave, ?_⟩
  rintro ⟨a', hload⟩
  obtain ⟨hbuild, hw, rfl⟩ := (saveArchive_eq_ok_iff _ _ _ _).mp hsave
  obtain ⟨rp, -, rfl⟩ := (buildArchive_eq_ok_iff _ _ _).mp hbuild
  obtain ⟨hvalid, -⟩ := valid_of_load hw hload
  have hmem : infiniteField ∈ (coordinatorMachine.run {}
      [.registerHello { epoch := 1 }, .ingest infiniteField]).allAccepted := by
    rw [haccepted]
    exact List.mem_singleton_self _
  have hentry := hvalid.accepted _ (List.mem_map_of_mem hmem)
  have hreadable := (WireObservation.validEntry_iff fitsEntry_infiniteField).mp hentry
  have hfinite := hreadable.finite FieldKeys.gpuMs ⟨0x7FF0000000000000⟩
    (by simp [toList_fields_infiniteField])
  exact absurd hfinite (by decide)

end ServingObservatory
