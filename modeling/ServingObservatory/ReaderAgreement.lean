import ServingObservatory.ReaderFailures

/-!
# The reader on lists answers as the reader with pointers

What a reader with pointers has not read yet is a list, and every call changes that list
and answers as the reader on lists does. So both models agree along every run, with the
readers of sections among them.
-/
namespace ServingObservatory
open BigEndian

namespace PointerReader

/-- The reader on the bytes between the pointers. -/
def view (r : PointerReader) : BinaryReader where
  unread := r.slice r.remaining
  failed := r.failed
  err := r.err

section Views
variable {α β : Type} {r : PointerReader}

theorem view_fail (r : PointerReader) (message : Str) :
    (r.fail message).view = r.view.fail message := by
  unfold fail BinaryReader.fail
  split_ifs with h h' h'
  · rfl
  · exact absurd h h'
  · exact absurd h' h
  · rfl

theorem remaining_view (hr : r.Sound) : r.view.remaining = r.remaining :=
  length_slice hr le_rfl

theorem atEnd_view (hr : r.Sound) : r.view.atEnd = r.atEnd := by
  have hlen : r.view.unread.length = r.remaining := remaining_view hr
  rw [BinaryReader.atEnd, Bool.eq_iff_iff, atEnd_iff hr, List.isEmpty_iff, ← hlen,
    List.length_eq_zero_iff]

theorem slice_eq_take {n : ℕ} (hn : n ≤ r.remaining) : r.slice n = r.view.unread.take n := by
  rw [view, slice, slice, List.take_take, Nat.min_eq_left hn]

theorem view_advance (r : PointerReader) (n : ℕ) :
    (r.advance n).view = { r.view with unread := r.view.unread.drop n } := by
  have hdrop : (r.advance n).slice (r.remaining - n) = (r.slice r.remaining).drop n := by
    rw [slice, slice, List.drop_take, List.drop_drop]
    rfl
  rw [view, remaining_advance, hdrop]
  rfl

theorem view_nested {n : ℕ} (hn : n ≤ r.remaining) :
    (r.nested n).view = { unread := r.view.unread.take n } := by
  have hlen : (r.nested n).remaining = n := Nat.add_sub_cancel_left _ _
  rw [view, hlen, ← slice_eq_take hn]
  rfl

/-- The read on lists answers as the read with pointers, from every reader inside its buffer. -/
structure Tracks (m : StateM PointerReader α) (m' : StateM BinaryReader α) : Prop where
  moves : Moves m
  same : ∀ r, r.Sound → m' r.view = ((m r).1, (m r).2.view)

theorem tracks_pure (a : α) : Tracks (pure a) (pure a) := ⟨moves_pure a, fun _ _ => rfl⟩

theorem Tracks.bind {m : StateM PointerReader α} {m' : StateM BinaryReader α}
    {f : α → StateM PointerReader β} {f' : α → StateM BinaryReader β} (hm : Tracks m m')
    (hf : ∀ a, Tracks (f a) (f' a)) : Tracks (m >>= f) (m' >>= f') where
  moves := hm.moves.bind fun a => (hf a).moves
  same r hr := by
    change f' (m' r.view).1 (m' r.view).2 = _
    rw [hm.same r hr]
    exact (hf _).same _ ((hm.moves r).sound hr)

theorem Tracks.unlessFailed {m : StateM PointerReader α} {m' : StateM BinaryReader α} {d : α}
    (hmoves : Moves (unlessFailed (fun _ => d) m))
    (hm : ∀ r, r.Sound → r.failed = false → m' r.view = ((m r).1, (m r).2.view)) :
    Tracks (unlessFailed (fun _ => d) m) (BinaryReader.unlessFailed d m') where
  moves := hmoves
  same r hr := by
    have hview : r.view.failed = r.failed := rfl
    unfold PointerReader.unlessFailed BinaryReader.unlessFailed
    cases hfailed : r.failed with
    | true => simp [hview, hfailed]
    | false => simpa [hview, hfailed] using hm r hr hfailed

theorem nextByte_view (hr : r.Sound) :
    BinaryReader.nextByte r.view = ((nextByte r).1, (nextByte r).2.view) := by
  unfold nextByte BinaryReader.nextByte
  cases hleft : r.remaining with
  | zero =>
    have hunread : r.view.unread = [] := by rw [view, hleft, slice, List.take_zero]
    rw [if_pos ((atEnd_iff hr).mpr hleft), hunread, view_fail]
  | succ n =>
    have hend : r.atEnd ≠ true := fun h => by simp [(atEnd_iff hr).mp h] at hleft
    have hunread : r.view.unread = r.buffer.getD r.pos 0 :: (r.advance 1).slice n := by
      rw [view, hleft, slice_succ hr (by omega)]
    have hnext : (r.advance 1).remaining = n := by rw [remaining_advance, hleft, Nat.add_sub_cancel]
    have hafter : (r.advance 1).view = { r.view with unread := (r.advance 1).slice n } := by
      rw [view, hnext]
      rfl
    rw [if_neg hend, hunread, hafter]

theorem tracks_u8 : Tracks rU8 BinaryReader.rU8 :=
  Tracks.unlessFailed moves_u8 fun _ hr _ => nextByte_view hr

theorem tracks_be {w : ℕ} (n : ℕ) (v : BitVec w) : Tracks (rBe n v) (BinaryReader.rBe n v) := by
  induction n generalizing v with
  | zero => exact tracks_pure v
  | succ n ih => exact tracks_u8.bind fun b => ih (shiftIn v b)

theorem tracks_u16 : Tracks rU16 BinaryReader.rU16 := (tracks_be 2 0).bind fun _ => tracks_pure _

theorem tracks_u32 : Tracks rU32 BinaryReader.rU32 := (tracks_be 4 0).bind fun _ => tracks_pure _

theorem tracks_u64 : Tracks rU64 BinaryReader.rU64 := (tracks_be 8 0).bind fun _ => tracks_pure _

theorem tracks_failIf (c : Bool) (message : Str) (a : α) :
    Tracks (failIf c message a) (BinaryReader.failIf c message a) where
  moves := moves_failIf c message a
  same r _ := by
    unfold failIf BinaryReader.failIf
    split_ifs
    · rw [view_fail]
    · rfl

theorem tracks_f64 : Tracks readF64 BinaryReader.readF64 :=
  tracks_u64.bind fun _ => tracks_failIf _ _ _

theorem checkLength_view (hr : r.Sound) (len : UInt32) :
    BinaryReader.checkLength len r.view = ((checkLength len r).1, (checkLength len r).2.view) := by
  unfold checkLength BinaryReader.checkLength
  rw [remaining_view hr]
  split_ifs
  · rw [view_fail]
  · rfl

theorem tracks_length : Tracks readLength BinaryReader.readLength :=
  tracks_u32.bind fun len =>
    Tracks.unlessFailed (moves_checkLength len) fun _ hr _ => checkLength_view hr len

theorem take_view {n : ℕ} (hn : n ≤ r.remaining) :
    BinaryReader.take n r.view = ((take n r).1, (take n r).2.view) := by
  rw [take, BinaryReader.take, slice_eq_take hn, view_advance]

theorem tracks_prefixed : Tracks readPrefixed BinaryReader.readPrefixed where
  moves := moves_prefixed
  same r hr := by
    have hlist : BinaryReader.readPrefixed r.view = BinaryReader.unlessFailed []
        (BinaryReader.take (BinaryReader.readLength r.view).1.toNat)
        (BinaryReader.readLength r.view).2 := rfl
    rw [hlist, tracks_length.same r hr, readPrefixed, bind_apply]
    have hview : (readLength r).2.view.failed = (readLength r).2.failed := rfl
    cases hfailed : (readLength r).2.failed with
    | true => simp [unlessFailed, BinaryReader.unlessFailed, hview, hfailed]
    | false =>
      simpa [unlessFailed, BinaryReader.unlessFailed, hview, hfailed] using
        take_view (readLength_le hfailed)

/-- A read that is checked first. -/
theorem Tracks.needing {m : StateM PointerReader α} {m' : StateM BinaryReader α} {d : α} {n : ℕ}
    {message : Str} (hmoves : ∀ r, n ≤ r.remaining → Moved r (m r).2)
    (hm : ∀ r, r.Sound → n ≤ r.remaining → m' r.view = ((m r).1, (m r).2.view)) :
    Tracks (needing n message (fun _ => d) m)
      (BinaryReader.unlessFailed d fun r =>
        if n > r.remaining then (d, r.fail message) else m' r) := by
  refine Tracks.unlessFailed (Moves.needing hmoves) fun r hr _ => ?_
  rw [remaining_view hr]
  split_ifs with hn
  · rw [view_fail]
  · exact hm r hr (Nat.not_lt.mp hn)

theorem tracks_raw (n : UInt32) : Tracks (readRaw n) (BinaryReader.readRaw n) :=
  Tracks.needing (fun _ h => moved_advance h) fun _ _ h => take_view h

theorem tracks_id : Tracks readId BinaryReader.readId :=
  have hwords := tracks_u64.bind fun hi => tracks_u64.bind fun lo => tracks_pure (⟨hi, lo⟩ : Id128)
  Tracks.needing (fun r _ => hwords.moves r) fun r hr _ => hwords.same r hr

theorem tracks_requireEnd : Tracks requireEnd BinaryReader.requireEnd := by
  refine Tracks.unlessFailed moves_requireEnd fun r hr _ => ?_
  rw [atEnd_view hr, remaining_view hr]
  split_ifs
  · rfl
  · rw [view_fail]

/-- The nested readers hold the same bytes. -/
theorem sub_view (hr : r.Sound) (len : UInt32) :
    BinaryReader.sub len r.view = ((sub len r).1.view, (sub len r).2.view) := by
  have hview : r.view.failed = r.failed := rfl
  have hempty : (r.nested 0).view = { unread := [] } := by
    rw [view_nested (Nat.zero_le _), List.take_zero]
  cases hfailed : r.failed with
  | true => simp [sub, needing, unlessFailed, BinaryReader.sub, BinaryReader.unlessFailed, hview,
      hfailed, hempty]
  | false =>
    simp only [sub, needing, unlessFailed, BinaryReader.sub, BinaryReader.unlessFailed, hview,
      hfailed, Bool.false_eq_true, if_false, remaining_view hr]
    split_ifs with hlen
    · rw [hempty, view_fail]
    · simp [view_nested (Nat.not_lt.mp hlen), view_advance, hview, hfailed]

end Views
end PointerReader

/-- The value with other readers in it. -/
def ReaderValue.map {ρ ρ' : Type} (f : ρ → ρ') : ReaderValue ρ → ReaderValue ρ'
  | .u8 v => .u8 v
  | .u16 v => .u16 v
  | .u32 v => .u32 v
  | .u64 v => .u64 v
  | .i8 v => .i8 v
  | .i16 v => .i16 v
  | .i32 v => .i32 v
  | .i64 v => .i64 v
  | .bool v => .bool v
  | .f32 v => .f32 v
  | .f64 v => .f64 v
  | .bytes v => .bytes v
  | .id v => .id v
  | .reader r => .reader (f r)
  | .unit => .unit

theorem ReaderValue.readers_map {ρ ρ' : Type} (f : ρ → ρ') (v : ReaderValue ρ) :
    (v.map f).readers = v.readers.map f := by
  cases v <;> rfl

namespace ReaderOp
open PointerReader

/-- The call of the reader on lists. -/
def applyList : ReaderOp → StateM BinaryReader (ReaderValue BinaryReader)
  | .u8 => .u8 <$> BinaryReader.rU8
  | .u16 => .u16 <$> BinaryReader.rU16
  | .u32 => .u32 <$> BinaryReader.rU32
  | .u64 => .u64 <$> BinaryReader.rU64
  | .i8 => .i8 <$> do return (← BinaryReader.rU8).toInt8
  | .i16 => .i16 <$> do return (← BinaryReader.rU16).toInt16
  | .i32 => .i32 <$> do return (← BinaryReader.rU32).toInt32
  | .i64 => .i64 <$> BinaryReader.readI64
  | .bool => .bool <$> BinaryReader.readBool
  | .f32 => .f32 <$> BinaryReader.readF32
  | .f64 => .f64 <$> BinaryReader.readF64
  | .length => .u32 <$> BinaryReader.readLength
  | .str => .bytes <$> BinaryReader.readStr
  | .bytes => .bytes <$> BinaryReader.readBytes
  | .raw n => .bytes <$> BinaryReader.readRaw n
  | .id => .id <$> BinaryReader.readId
  | .count => .u64 <$> BinaryReader.readCount
  | .sub len => .reader <$> BinaryReader.sub len
  | .requireEnd => .bool <$> BinaryReader.requireEnd
  | .fail message => fun r => (.unit, r.fail message)

/-- A call that hands out no reader. -/
theorem applyList_of_tracks {α : Type} {m : StateM PointerReader α} {m' : StateM BinaryReader α}
    (h : Tracks m m') {r : PointerReader} (hr : r.Sound) (f : α → ReaderValue PointerReader)
    (f' : α → ReaderValue BinaryReader) (hf : ∀ a, f' a = (f a).map view) :
    (f' <$> m') r.view = (((f <$> m) r).1.map view, ((f <$> m) r).2.view) := by
  change (f' (m' r.view).1, (m' r.view).2) = ((f (m r).1).map view, (m r).2.view)
  rw [h.same r hr, hf]

theorem applyList_view (op : ReaderOp) {r : PointerReader} (hr : r.Sound) :
    op.applyList r.view = ((op.apply r).1.map view, (op.apply r).2.view) := by
  cases op with
  | u8 => exact applyList_of_tracks tracks_u8 hr _ _ fun _ => rfl
  | u16 => exact applyList_of_tracks tracks_u16 hr _ _ fun _ => rfl
  | u32 => exact applyList_of_tracks tracks_u32 hr _ _ fun _ => rfl
  | u64 => exact applyList_of_tracks tracks_u64 hr _ _ fun _ => rfl
  | i8 => exact applyList_of_tracks (tracks_u8.bind fun _ => tracks_pure _) hr _ _ fun _ => rfl
  | i16 => exact applyList_of_tracks (tracks_u16.bind fun _ => tracks_pure _) hr _ _ fun _ => rfl
  | i32 => exact applyList_of_tracks (tracks_u32.bind fun _ => tracks_pure _) hr _ _ fun _ => rfl
  | i64 => exact applyList_of_tracks (tracks_u64.bind fun _ => tracks_pure _) hr _ _ fun _ => rfl
  | bool => exact applyList_of_tracks (tracks_u8.bind fun _ => tracks_pure _) hr _ _ fun _ => rfl
  | f32 => exact applyList_of_tracks (tracks_u32.bind fun _ => tracks_pure _) hr _ _ fun _ => rfl
  | f64 => exact applyList_of_tracks tracks_f64 hr _ _ fun _ => rfl
  | length => exact applyList_of_tracks tracks_length hr _ _ fun _ => rfl
  | str => exact applyList_of_tracks tracks_prefixed hr _ _ fun _ => rfl
  | bytes => exact applyList_of_tracks tracks_prefixed hr _ _ fun _ => rfl
  | raw n => exact applyList_of_tracks (tracks_raw n) hr _ _ fun _ => rfl
  | id => exact applyList_of_tracks tracks_id hr _ _ fun _ => rfl
  | count => exact applyList_of_tracks (tracks_u32.bind fun _ => tracks_pure _) hr _ _ fun _ => rfl
  | sub len =>
    change (ReaderValue.reader (BinaryReader.sub len r.view).1, (BinaryReader.sub len r.view).2) = _
    rw [sub_view hr]
    rfl
  | requireEnd => exact applyList_of_tracks tracks_requireEnd hr _ _ fun _ => rfl
  | fail message => exact congrArg (ReaderValue.unit, ·) (view_fail r message).symm

end ReaderOp

/-- The readers on lists, used in any order. -/
def listReadersMachine :
    Machine (List BinaryReader) (ℕ × ReaderOp) (Option (ReaderValue BinaryReader)) where
  step rs call := match rs[call.1]? with
    | some r => (rs.set call.1 (call.2.applyList r).2 ++ (call.2.applyList r).1.readers,
        some (call.2.applyList r).1)
    | none => (rs, none)

/-- A call of the readers on lists is a call of the readers that they are views of. -/
theorem step_map_view {rs : List PointerReader} (hrs : ∀ r ∈ rs, r.Sound) (call : ℕ × ReaderOp) :
    listReadersMachine.step (rs.map PointerReader.view) call =
      ((readersMachine.next rs call).map PointerReader.view,
        (readersMachine.out rs call).map (ReaderValue.map PointerReader.view)) := by
  unfold Machine.next Machine.out listReadersMachine readersMachine
  simp only [List.getElem?_map]
  cases hr : rs[call.1]? with
  | none => rfl
  | some r =>
    have hsound := hrs r (List.mem_of_getElem? hr)
    simp [call.2.applyList_view hsound, ReaderValue.readers_map, List.map_set]

/-- Along every run over a buffer both kinds of readers give the same answers. -/
theorem lists_run (data : Bytes) (calls : List (ℕ × ReaderOp)) :
    listReadersMachine.run [{ unread := data }] calls =
        (readersAfter data calls).map PointerReader.view ∧
      listReadersMachine.trace [{ unread := data }] calls =
        (readersMachine.trace [PointerReader.ofBytes data] calls).map fun p =>
          (p.1, p.2.map (ReaderValue.map PointerReader.view)) := by
  have hstart : [PointerReader.ofBytes data].map PointerReader.view = [{ unread := data }] := by
    simp [PointerReader.ofBytes, PointerReader.view, PointerReader.slice,
      PointerReader.remaining]
  rw [← hstart]
  refine readersMachine.map_run (I := fun rs => ∀ r ∈ rs, r.Sound ∧ r.buffer = data)
    (fun _ call h => sound_next h call)
    (fun _ call h => step_map_view (fun r hr => (h r hr).1) call) ?_ calls
  intro r hr
  obtain rfl := List.mem_singleton.mp hr
  exact ⟨PointerReader.sound_ofBytes data, rfl⟩

end ServingObservatory
