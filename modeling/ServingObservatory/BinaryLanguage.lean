import ServingObservatory.BinaryCodec

/-!
# What the binary reader accepts

Every read of the reader reads a language of byte strings, the spellings of its
values. A read that is not at a spelling leaves the reader failed.
-/
namespace ServingObservatory
open BigEndian Decoding BinaryWriter

namespace BinaryReader

/-- A reader shows its failure flag and the bytes that are left. -/
def input : Input BinaryReader UInt8 where
  ok r := r.failed = false
  unread := unread

theorem failed_fail (r : BinaryReader) (message : Str) : (r.fail message).failed = true := by
  cases h : r.failed <;> simp [fail, h]

theorem exists_input (bs : Bytes) : ∃ r, input.ok r ∧ input.unread r = bs :=
  ⟨{ unread := bs }, rfl, rfl⟩

variable {α : Type} {L : Bytes → α → Prop} {m : StateM BinaryReader α}

theorem runs_unlessFailed {default a : α} {s t : BinaryReader} (hs : s.failed = false) :
    runs (unlessFailed default m) s a t ↔ runs m s a t := by
  change (unlessFailed default m s : α × BinaryReader) = (a, t) ↔ (m s : α × BinaryReader) = (a, t)
  simp only [unlessFailed, hs, Bool.false_eq_true, if_false]

/-- A reader that ends unfailed had not failed before. -/
theorem ok_of_unlessFailed {default a : α} {s t : BinaryReader}
    (hrun : runs (unlessFailed default m) s a t) (ht : t.failed = false) : s.failed = false := by
  cases hs : s.failed with
  | false => rfl
  | true =>
    have hst : (unlessFailed default m s : α × BinaryReader) = (a, t) := hrun
    simp only [unlessFailed, hs, if_true] at hst
    cases hst
    exact hs.symm.trans ht

theorem reads_unlessFailed (h : Reads input m L) (default : α) :
    Reads input (unlessFailed default m) L where
  sound hrun hok :=
    h.sound ((runs_unlessFailed (ok_of_unlessFailed hrun hok)).mp hrun) hok
  complete hok hL hs :=
    let ⟨t, hrun, ht⟩ := h.complete hok hL hs
    ⟨t, (runs_unlessFailed hok).mpr hrun, ht⟩

theorem reads_needing (h : Reads input m L) (n : ℕ) (message : Str) (default : α)
    (hlen : ∀ bs a, L bs a → n ≤ bs.length) : Reads input (needing n message default m) L where
  sound := by
    intro s t a hrun hok
    have hst : (needing n message default m s : α × BinaryReader) = (a, t) := hrun
    by_cases hn : s.remaining < n
    · simp only [needing, hn, if_true] at hst
      cases hst
      exact absurd hok (by simp [input, failed_fail])
    · simp only [needing, hn, if_false] at hst
      exact h.sound hst hok
  complete := by
    intro s bs rest a hok hL hs
    obtain ⟨t, hrun, ht⟩ := h.complete hok hL hs
    refine ⟨t, ?_, ht⟩
    have hn : ¬ s.remaining < n := by
      have hbs := hlen bs a hL
      have hs' : s.unread = bs ++ rest := hs
      rw [remaining, hs', List.length_append]
      omega
    change (needing n message default m s : α × BinaryReader) = (a, t)
    simp only [needing, hn, if_false]
    exact hrun

theorem reads_failIf (c : Bool) (message : Str) (a : α) :
    Reads input (failIf c message a) (fun bs b => c = false ∧ bs = [] ∧ b = a) where
  sound := by
    rintro s t b hrun hok
    have hst : (a, if c then s.fail message else s) = (b, t) := hrun
    cases hst
    cases c with
    | true => exact absurd hok (by simp [input, failed_fail])
    | false => exact ⟨hok, [], ⟨rfl, rfl, rfl⟩, rfl⟩
  complete := by
    rintro s bs rest b hok ⟨rfl, rfl, rfl⟩ hs
    exact ⟨s, rfl, hok, hs⟩

theorem reads_nextByte :
    Reads input nextByte (Spelled (fun _ => True) (fun b => [b]) id) where
  sound := by
    intro s t b hrun hok
    have hst : (nextByte s : UInt8 × BinaryReader) = (b, t) := hrun
    cases hs : s.unread with
    | nil =>
      simp only [nextByte, hs] at hst
      cases hst
      exact absurd hok (by simp [input, failed_fail])
    | cons b' rest =>
      simp only [nextByte, hs] at hst
      cases hst
      exact ⟨hok, [b], ⟨b, trivial, rfl, rfl⟩, hs⟩
  complete := by
    rintro s bs rest b hok ⟨b, -, rfl, rfl⟩ hs
    have hunread : s.unread = b :: rest := hs
    refine ⟨{ s with unread := rest }, ?_, hok, rfl⟩
    change (nextByte s : UInt8 × BinaryReader) = _
    simp only [nextByte, hunread]

theorem reads_u8 : Reads input rU8 (Spelled (fun _ => True) (fun b => [b]) id) :=
  reads_unlessFailed reads_nextByte 0

theorem reads_be {w : ℕ} (n : ℕ) (v : BitVec w) : Reads input (rBe n v)
    (Spelled (fun bs : Bytes => bs.length = n) id (fun bs => bs.foldl shiftIn v)) := by
  induction n generalizing v with
  | zero =>
    refine (Reads.pure v).congr fun bs a => ?_
    simp [Spelled, List.length_eq_zero_iff]
  | succ n ih =>
    refine (reads_u8.bind fun b => ih (shiftIn v b)).congr fun bs a => ?_
    constructor
    · rintro ⟨b, -, tail, rfl, -, rfl, rfl, rfl⟩
      exact ⟨b :: tail, rfl, rfl, rfl⟩
    · rintro ⟨bs, hlen, rfl, rfl⟩
      cases bs with
      | nil => cases hlen
      | cons b bs => exact ⟨b, trivial, bs, rfl, bs, Nat.succ.inj hlen, rfl, rfl⟩

/-- The loop over as many bytes as a word has reads its big-endian form. -/
theorem reads_word (n : ℕ) : Reads input (rBe n (0 : BitVec (8 * n)))
    (Spelled (fun _ => True) (fun v => bytes n v.toNat) id) := by
  have hpow : 2 ^ (8 * n) = 256 ^ n := pow_mul 2 8 n
  have hzero : (0 : BitVec (8 * n)).toNat = 0 := by simp
  refine (reads_be n 0).congr fun bs a => ?_
  constructor
  · rintro ⟨bs, rfl, rfl, rfl⟩
    refine ⟨bs.foldl shiftIn 0, trivial, ?_, rfl⟩
    change bs = bytes bs.length (bs.foldl shiftIn 0).toNat
    rw [toNat_foldl_shiftIn, hzero, Nat.zero_mul, Nat.zero_add, hpow,
      Nat.mod_eq_of_lt (value_lt bs), bytes_value]
  · rintro ⟨v, -, rfl, rfl⟩
    refine ⟨bytes n a.toNat, length_bytes n _, rfl, BitVec.eq_of_toNat_eq ?_⟩
    rw [toNat_foldl_shiftIn, hzero, Nat.zero_mul, Nat.zero_add, value_bytes, hpow,
      Nat.mod_mod, Nat.mod_eq_of_lt (hpow ▸ a.isLt)]

theorem reads_u16 :
    Reads input rU16 (Spelled (fun _ => True) (fun v : UInt16 => bytes 2 v.toNat) id) :=
  ((reads_word 2).bind_pure UInt16.ofBitVec).congr fun _ _ =>
    ⟨fun ⟨v, h⟩ => ⟨⟨v⟩, h⟩, fun ⟨v, h⟩ => ⟨v.toBitVec, h⟩⟩

theorem reads_u32 :
    Reads input rU32 (Spelled (fun _ => True) (fun v : UInt32 => bytes 4 v.toNat) id) :=
  ((reads_word 4).bind_pure UInt32.ofBitVec).congr fun _ _ =>
    ⟨fun ⟨v, h⟩ => ⟨⟨v⟩, h⟩, fun ⟨v, h⟩ => ⟨v.toBitVec, h⟩⟩

theorem reads_u64 :
    Reads input rU64 (Spelled (fun _ => True) (fun v : UInt64 => bytes 8 v.toNat) id) :=
  ((reads_word 8).bind_pure UInt64.ofBitVec).congr fun _ _ =>
    ⟨fun ⟨v, h⟩ => ⟨⟨v⟩, h⟩, fun ⟨v, h⟩ => ⟨v.toBitVec, h⟩⟩

theorem reads_i64 : Reads input readI64
    (Spelled (fun _ => True) (fun v : Int64 => bytes 8 v.toUInt64.toNat) id) :=
  (reads_u64.bind_pure UInt64.toInt64).congr fun _ _ =>
    ⟨fun ⟨v, h⟩ => ⟨v.toInt64, h⟩, fun ⟨v, h⟩ => ⟨v.toUInt64, h⟩⟩

/-- Every byte but zero is read as true. -/
theorem reads_bool :
    Reads input readBool (Spelled (fun _ => True) (fun b : UInt8 => [b]) (· != 0)) :=
  reads_u8.bind_pure (· != 0)

/-- NaN and infinity are accepted here. -/
theorem reads_f32 :
    Reads input readF32 (Spelled (fun _ => True) (fun v : F32 => bytes 4 v.bits.toNat) id) :=
  (reads_u32.bind_pure F32.mk).congr fun _ _ =>
    ⟨fun ⟨v, h⟩ => ⟨⟨v⟩, h⟩, fun ⟨v, h⟩ => ⟨v.bits, h⟩⟩

theorem reads_f64 : Reads input readF64
    (Spelled (fun v : F64 => v.isFinite = true) (fun v => bytes 8 v.bits.toNat) id) := by
  refine (reads_u64.bind fun bits => reads_failIf _ _ _).congr fun bs a => ?_
  constructor
  · rintro ⟨bits, -, tail, rfl, hfinite, rfl, rfl⟩
    exact ⟨⟨bits⟩, congrArg (!·) hfinite, List.append_nil _, rfl⟩
  · rintro ⟨v, hfinite, rfl, rfl⟩
    exact ⟨a.bits, trivial, [], (List.append_nil _).symm, by simpa [F64.isFinite] using hfinite,
      rfl, rfl⟩

theorem reads_count :
    Reads input readCount (Spelled (fun n => n < 2 ^ 32) (bytes 4) UInt64.ofNat) :=
  (reads_u32.bind_pure UInt32.toUInt64).congr fun bs a => by
    constructor
    · rintro ⟨v, -, rfl, rfl⟩
      exact ⟨v.toNat, v.toNat_lt, rfl, by simp⟩
    · rintro ⟨n, hn, rfl, rfl⟩
      have hto : (UInt32.ofNat n).toNat = n := UInt32.toNat_ofNat_of_lt' hn
      refine ⟨UInt32.ofNat n, trivial, congrArg (bytes 4) hto.symm, ?_⟩
      exact UInt64.toNat_inj.mp (by simp [hto]; omega)

/-- A declared length passes when that many bytes remain. -/
theorem runs_checkLength {len a : UInt32} {s t : BinaryReader} (hrun : runs (checkLength len) s a t)
    (ht : t.failed = false) : a = len ∧ t = s ∧ len.toNat ≤ s.remaining := by
  have hst : (checkLength len s : UInt32 × BinaryReader) = (a, t) := hrun
  by_cases hn : len.toNat > s.remaining
  · simp only [checkLength, hn, if_true] at hst
    cases hst
    exact absurd ht (by simp [failed_fail])
  · simp only [checkLength, hn, if_false] at hst
    cases hst
    exact ⟨rfl, rfl, Nat.not_lt.mp hn⟩

theorem runs_checkLength_of_le {len : UInt32} {s : BinaryReader} (h : len.toNat ≤ s.remaining) :
    runs (checkLength len) s len s := by
  change (checkLength len s : UInt32 × BinaryReader) = (len, s)
  simp only [checkLength, Nat.not_lt.mpr h, if_false]

theorem reads_prefixed :
    Reads input readPrefixed (Spelled (fun s => s.length < 2 ^ 32) prefixed id) where
  sound := by
    intro s t a hrun hok
    obtain ⟨len, u, hlen, htake⟩ := Runs.runs_bind.mp hrun
    have hu := ok_of_unlessFailed htake hok
    obtain ⟨len', v, hu32, hcheck⟩ := Runs.runs_bind.mp hlen
    have hv := ok_of_unlessFailed hcheck hu
    obtain ⟨rfl, rfl, hle⟩ := runs_checkLength ((runs_unlessFailed hv).mp hcheck) hu
    obtain ⟨hs, -, ⟨len, -, rfl, rfl⟩, hunread⟩ := reads_u32.sound hu32 hv
    cases (runs_unlessFailed hv).mp htake
    have hlength : (u.unread.take len.toNat).length = len.toNat := by
      rw [List.length_take]
      exact Nat.min_eq_left hle
    refine ⟨hs, _, ⟨u.unread.take len.toNat, ?_, rfl, rfl⟩, ?_⟩
    · exact hlength.trans_lt len.toNat_lt
    · change s.unread = prefixed (u.unread.take len.toNat) ++ u.unread.drop len.toNat
      rw [prefixed, hlength, List.append_assoc, List.take_append_drop]
      exact hunread
  complete := by
    rintro s bs rest a hok ⟨a, hlt, rfl, rfl⟩ hs
    have hlen : (UInt32.ofNat a.length).toNat = a.length := UInt32.toNat_ofNat_of_lt' hlt
    have hsplit : s.unread = bytes 4 (UInt32.ofNat a.length).toNat ++ (a ++ rest) := by
      rw [hlen, ← List.append_assoc]
      exact hs
    obtain ⟨u, hu32, hu, hunread⟩ := reads_u32.complete hok
      ⟨UInt32.ofNat a.length, trivial, rfl, rfl⟩ hsplit
    have hunread' : u.unread = a ++ rest := hunread
    have hle : (UInt32.ofNat a.length).toNat ≤ u.remaining := by
      rw [hlen, remaining, hunread', List.length_append]
      exact Nat.le_add_right _ _
    refine ⟨{ u with unread := rest }, ?_, hu, rfl⟩
    refine Runs.runs_bind.mpr ⟨UInt32.ofNat a.length, u, Runs.runs_bind.mpr ⟨_, u, hu32,
      (runs_unlessFailed hu).mpr (runs_checkLength_of_le hle)⟩, (runs_unlessFailed hu).mpr ?_⟩
    change (take _ u : Bytes × BinaryReader) = (a, _)
    rw [take, hlen, hunread', List.take_left, List.drop_left]

theorem reads_id : Reads input readId (Spelled (fun _ => True) Id128.toBytes id) := by
  have hwords : Reads input
      (do let hi ← rU64; let lo ← rU64; return ⟨hi, lo⟩ : StateM BinaryReader Id128)
      (Spelled (fun _ => True) Id128.toBytes id) := by
    refine (reads_u64.bind fun hi => reads_u64.bind_pure (Id128.mk hi)).congr fun bs a => ?_
    constructor
    · rintro ⟨hi, -, tail, rfl, lo, -, rfl, rfl⟩
      exact ⟨⟨hi, lo⟩, trivial, (Id128.toBytes_eq ⟨hi, lo⟩).symm, rfl⟩
    · rintro ⟨a, -, rfl, rfl⟩
      exact ⟨a.hi, trivial, _, Id128.toBytes_eq a, a.lo, trivial, rfl, rfl⟩
  refine reads_unlessFailed (reads_needing hwords 16 _ _ ?_) _
  rintro bs a ⟨v, -, rfl, rfl⟩
  simp [Id128.toBytes_eq]

/-- The end is reached by a reader that has not failed and has nothing left. -/
theorem requireEnd_iff (r : BinaryReader) :
    (requireEnd.run r).1 = true ↔ r.failed = false ∧ r.unread = [] := by
  change ((requireEnd r : Bool × BinaryReader)).1 = true ↔ _
  cases hf : r.failed <;> cases hu : r.unread <;> simp [requireEnd, unlessFailed, atEnd, hf, hu]

end BinaryReader
end ServingObservatory
