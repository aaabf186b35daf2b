import ServingObservatory.ArchiveWire

/-!
# When a file loads

A file opens when it is a length, that many bytes and their digest. The body is then
the spelling of an archive form, and the replay of the evidence in it must have the
digests of the block.
-/
namespace ServingObservatory
open Std BigEndian Decoding BinaryWriter BinaryReader

namespace BinaryReader

theorem run_readRaw {r : BinaryReader} {n : UInt32} {bs rest : Bytes} (hr : r.failed = false)
    (hunread : r.unread = bs ++ rest) (hlen : bs.length = n.toNat) :
    ∃ r', (readRaw n).run r = (bs, r') ∧ r'.failed = false ∧ r'.unread = rest := by
  refine ⟨{ r with unread := rest }, ?_, hr, rfl⟩
  change (readRaw n r : Bytes × BinaryReader) = _
  have hle : ¬ bs.length > r.remaining := by
    rw [remaining, hunread, List.length_append]
    omega
  simp only [readRaw, unlessFailed, hr, take, hunread, ← hlen, hle, List.take_left,
    List.drop_left, Bool.false_eq_true, if_false]

theorem run_rU32 (v : UInt32) (rest : Bytes) :
    ∃ r, rU32.run { unread := bytes 4 v.toNat ++ rest } = (v, r) ∧ r.failed = false ∧
      r.unread = rest :=
  reads_u32.complete rfl ⟨v, trivial, rfl, rfl⟩ rfl

end BinaryReader

theorem digestFromBytes_toList (d : Digest) : digestFromBytes d.toList = d := by
  apply Vector.ext
  intro i hi
  simp [digestFromBytes, copy32]

theorem toList_digestFromBytes {b : Bytes} (h : b.length = 32) :
    (digestFromBytes b).toList = b := by
  apply List.ext_getElem
  · simp [h]
  · intro i hi hi'
    simp [digestFromBytes, copy32, hi']

/-- A file by its parts: only the digest of the body is left to check. -/
theorem openArchive_parts {bodyLen : UInt32} {body hash : Bytes}
    (hbody : body.length = bodyLen.toNat) (hhash : hash.length = 32) :
    openArchive (bytes 4 bodyLen.toNat ++ (body ++ hash)) =
      if Sha256.hash body ≠ digestFromBytes hash then .error (lit "archive checksum mismatch")
      else .ok body := by
  obtain ⟨r, hrun, hr, hunread⟩ := run_rU32 bodyLen (body ++ hash)
  have hsize : (bytes 4 bodyLen.toNat ++ (body ++ hash)).length = 4 + bodyLen.toNat + 32 := by
    simp [hbody, hhash, Nat.add_assoc]
  obtain ⟨r₁, hrun₁, hr₁, hunread₁⟩ := run_readRaw hr hunread hbody
  obtain ⟨r₂, hrun₂, hr₂, hunread₂⟩ := run_readRaw (n := 32) hr₁
    (hunread₁.trans (List.append_nil _).symm) hhash
  have hend : (requireEnd.run r₂).1 = true := (requireEnd_iff r₂).mpr ⟨hr₂, hunread₂⟩
  simp only [openArchive, hrun, hr, hsize, hrun₁, hbody, hrun₂, hhash, hend, ne_eq,
    not_true, Bool.not_true, Bool.false_eq_true, if_false]

/-- The files that open. -/
theorem openArchive_eq_ok_iff (all body : Bytes) : openArchive all = .ok body ↔
    body.length < 2 ^ 32 ∧ all = bytes 4 body.length ++ (body ++ (Sha256.hash body).toList) := by
  constructor
  · intro h
    obtain ⟨bodyLen, r, hrun⟩ : ∃ v r, rU32.run { unread := all } = (v, r) := ⟨_, _, rfl⟩
    by_cases hfailed : r.failed = true
    · simp [openArchive, hrun, hfailed] at h
    have hr : r.failed = false := by simpa using hfailed
    obtain ⟨-, bs, ⟨v, -, rfl, rfl⟩, hall⟩ := reads_u32.sound hrun hr
    by_cases hsize : all.length = 4 + bodyLen.toNat + 32
    · replace hall : all = bytes 4 bodyLen.toNat ++ r.unread := hall
      have hlen : r.unread.length = bodyLen.toNat + 32 := by
        rw [hall] at hsize
        simp at hsize
        omega
      have hsplit : r.unread = r.unread.take bodyLen.toNat ++ r.unread.drop bodyLen.toNat :=
        (List.take_append_drop _ _).symm
      have hbody : (r.unread.take bodyLen.toNat).length = bodyLen.toNat := by
        simp [hlen]
      have hhash : (r.unread.drop bodyLen.toNat).length = 32 := by
        simp [hlen]
      rw [hall, hsplit, openArchive_parts hbody hhash] at h
      split_ifs at h with hdigest
      cases h
      refine ⟨hbody.trans_lt bodyLen.toNat_lt, ?_⟩
      rw [hbody, not_ne_iff.mp hdigest, toList_digestFromBytes hhash, ← hsplit]
      exact hall
    · simp [openArchive, hrun, hfailed, hsize] at h
  · rintro ⟨hlen, rfl⟩
    have hto : (UInt32.ofNat body.length).toNat = body.length := UInt32.toNat_ofNat_of_lt' hlen
    have hhash : (Sha256.hash body).toList.length = 32 := Vector.length_toList
    have hopen := openArchive_parts hto.symm hhash
    rw [hto, digestFromBytes_toList] at hopen
    simpa using hopen

/-- The bodies that are read. -/
theorem readArchiveBody_eq_ok_iff (bodyb : Bytes) (s : ArchiveSections) :
    readArchiveBody bodyb = .ok s ↔
      ∃ w : WireArchive, w.Valid ∧ w.block.length = 128 ∧ bodyb = w.spell ∧ s = w.sections := by
  constructor
  · intro h
    cases hres : readSectionsOf.run.run { unread := bodyb } with
    | mk e r =>
      simp only [readArchiveBody, hres] at h
      cases e with
      | error e => cases h
      | ok s' =>
        cases hend : (requireEnd.run r).1 with
        | false => simp [hend] at h
        | true =>
          by_cases hblock : s'.dbytes.length = 128
          · simp only [hend, hblock, Bool.not_true, Bool.false_eq_true, if_false, ne_eq, not_true,
              Except.ok.injEq] at h
            subst h
            obtain ⟨hok, hunread⟩ := (requireEnd_iff r).mp hend
            obtain ⟨-, bs, ⟨w, hw, rfl, rfl⟩, hb⟩ := WireArchive.reads.sound hres hok
            refine ⟨w, hw, hblock, hb.trans ?_, rfl⟩
            rw [show input.unread r = [] from hunread, List.append_nil]
          · simp [hend, hblock] at h
  · rintro ⟨w, hw, hblock, rfl, rfl⟩
    have hstart : input.ok { unread := w.spell } := rfl
    have hall : input.unread { unread := w.spell } = w.spell ++ [] := (List.append_nil _).symm
    obtain ⟨r, hrun, hok, hunread⟩ := WireArchive.reads.complete hstart ⟨w, hw, rfl, rfl⟩ hall
    have hres : readSectionsOf.run.run { unread := w.spell } = (.ok w.sections, r) := hrun
    have hend : (requireEnd.run r).1 = true := (requireEnd_iff r).mpr ⟨hok, hunread⟩
    have hdbytes : w.sections.dbytes.length = 128 := hblock
    simp only [readArchiveBody, hres, hend, hdbytes, Bool.not_true, Bool.false_eq_true, if_false,
      ne_eq, not_true]

/-- The file around a body. -/
def fileOf (body : Bytes) : Bytes :=
  bytes 4 (UInt32.ofNat body.length).toNat ++ (body ++ (Sha256.hash body).toList)

theorem fileOf_eq {body : Bytes} (h : body.length < 2 ^ 32) :
    fileOf body = bytes 4 body.length ++ (body ++ (Sha256.hash body).toList) := by
  rw [fileOf, UInt32.toNat_ofNat_of_lt' h]

/-- The length of a file gives that of its body. -/
theorem fileOf_inj {body body' : Bytes} (h : fileOf body = fileOf body') : body = body' := by
  have hlen := congrArg List.length h
  simp only [fileOf, List.length_append, length_bytes, Vector.length_toList] at hlen
  have hrest := (List.append_inj h (by simp)).2
  exact (List.append_inj hrest (by omega)).1

variable {ρ : Type}

/-- The digests of a replay, in the order of the block. -/
def Replayer.digests (R : Replayer ρ) (rp : ρ) : List Digest :=
  [R.evidenceDigest rp, R.traceDigest rp, R.explanationDigest rp, R.aggregateDigest rp]

namespace ArchiveContents

theorem replayMatch_verified (R : Replayer ρ) (a : ArchiveContents ρ) (rp : ρ) :
    (a.verified R rp).replayMatch = true ↔ R.digests rp = a.digests := by
  simp [verified, Replayer.digests, digests, and_assoc]

theorem verified_eq {R : Replayer ρ} {a : ArchiveContents ρ} {rp : ρ}
    (h : R.digests rp = a.digests) :
    a.verified R rp = { a with verifiedReplay := rp, replayMatch := true } := by
  have hset : a.verified R rp =
      { a with verifiedReplay := rp, replayMatch := (a.verified R rp).replayMatch } := rfl
  rw [hset, (replayMatch_verified R a rp).mpr h]

end ArchiveContents

theorem throw_unless_eq_ok {ε α : Type} {c : Bool} {e : ε} {a b : α} :
    (if !c then throw e else pure b : Except ε α) = .ok a ↔ c = true ∧ b = a := by
  cases c with
  | false => exact ⟨nofun, fun h => nomatch h.1⟩
  | true => exact ⟨fun h => ⟨rfl, Except.ok.inj h⟩, fun h => congrArg Except.ok h.2⟩

/-- The stages of a verified load. -/
theorem loadArchive_stages [Inhabited ρ] (R : Replayer ρ) (all : Bytes)
    (a : ArchiveContents ρ) : loadArchive R all true = .ok a ↔
      ∃ body, openArchive all = .ok body ∧ ∃ s, readArchiveBody body = .ok s ∧
        ∃ rp, R.replay s.accepted = .ok rp ∧
          (s.contents.verified R rp).replayMatch = true ∧ s.contents.verified R rp = a := by
  simp only [loadArchive, bind_eq_ok, mapError_eq_ok, if_true, throw_unless_eq_ok]
  rfl

/-- The files that load, and as what. -/
theorem loadArchive_eq_ok_iff [Inhabited ρ] (R : Replayer ρ) (all : Bytes)
    (a : ArchiveContents ρ) : loadArchive R all true = .ok a ↔
      ∃ w : WireArchive, w.Valid ∧ w.block.length = 128 ∧ w.spell.length < 2 ^ 32 ∧
        all = fileOf w.spell ∧ ∃ rp, R.replay w.sections.accepted = .ok rp ∧
          R.digests rp = (w.sections.contents : ArchiveContents ρ).digests ∧
          w.sections.contents.verified R rp = a := by
  rw [loadArchive_stages]
  simp only [ArchiveContents.replayMatch_verified]
  constructor
  · rintro ⟨body, hopen, s, hread, rp, hrp, hdigests, rfl⟩
    obtain ⟨hlen, rfl⟩ := (openArchive_eq_ok_iff all body).mp hopen
    obtain ⟨w, hw, hblock, rfl, rfl⟩ := (readArchiveBody_eq_ok_iff body s).mp hread
    exact ⟨w, hw, hblock, hlen, (fileOf_eq hlen).symm, rp, hrp, hdigests, rfl⟩
  · rintro ⟨w, hw, hblock, hlen, rfl, rp, hrp, hdigests, rfl⟩
    exact ⟨w.spell, (openArchive_eq_ok_iff _ _).mpr ⟨hlen, fileOf_eq hlen⟩, w.sections,
      (readArchiveBody_eq_ok_iff _ _).mpr ⟨w, hw, hblock, rfl, rfl⟩, rp, hrp, hdigests, rfl⟩

end ServingObservatory
