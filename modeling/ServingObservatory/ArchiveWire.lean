import ServingObservatory.AuthorityWire

/-!
# The wire form of archives

An archive body is a header, three counted lists and the block of digests. The reader
accepts the forms within its limits whose accepted identities are distinct, and the
file around a body must have its length and its digest.
-/
namespace ServingObservatory
open Std BigEndian Decoding BinaryWriter BinaryReader

/-- A valid payload that fits behind a length. -/
def WireObservation.ValidEntry (w : WireObservation) : Prop := w.Valid ∧ w.spell.length < 2 ^ 32

theorem WireObservation.ValidEntry.fits {w : WireObservation} (h : w.ValidEntry) : w.FitsEntry :=
  ⟨h.1.sized, h.2⟩

theorem readObservationPayload_eq_ok_iff (b : Bytes) (o : Observation) :
    readObservationPayload b = .ok o ↔
      ∃ w : WireObservation, w.Valid ∧ b = w.spell ∧ o = w.observation := by
  constructor
  · exact WireObservation.exists_of_readObservationPayload
  · rintro ⟨w, hw, rfl, rfl⟩
    exact WireObservation.readObservationPayload_spell hw

theorem reads_obsEntry : Reads input readObsEntry
    (Spelled WireObservation.ValidEntry WireObservation.entry WireObservation.observation) := by
  refine (reads_prefixed.lift.bind fun b => (reads_requireOk _).bind fun _ =>
    Reads.ofResult (readObservationPayload b)).congr fun bs o => ?_
  constructor
  · rintro ⟨b, hb, _, rfl, -, -, _, rfl, rfl, hread⟩
    obtain ⟨w, hw, rfl, rfl⟩ := (readObservationPayload_eq_ok_iff b o).mp hread
    exact ⟨w, ⟨hw, hb⟩, by simp [WireObservation.entry], rfl⟩
  · rintro ⟨w, hw, rfl, rfl⟩
    exact ⟨w.spell, hw.2, [], by simp [WireObservation.entry], (), trivial, [], rfl, rfl,
      WireObservation.readObservationPayload_spell hw.1⟩

/-- A rejected observation and its reason as they are spelled. -/
def spellStale (p : WireObservation × Str) : Bytes := p.1.entry ++ prefixed p.2

theorem reads_staleEntry : Reads input readStaleEntry
    (Spelled (fun p : WireObservation × Str => p.1.ValidEntry ∧ p.2.length < 2 ^ 32) spellStale
      fun p => (p.1.observation, p.2)) := by
  refine (reads_obsEntry.bind fun o => reads_prefixed.lift.bind fun reason =>
    ((reads_requireOk []).adapt _).bind_pure _).congr fun bs p => ?_
  constructor
  · rintro ⟨w, hw, _, rfl, reason, hreason, _, rfl, -, -, rfl, rfl⟩
    exact ⟨(w, reason), ⟨hw, hreason⟩, by simp [spellStale], rfl⟩
  · rintro ⟨⟨w, reason⟩, ⟨hw, hreason⟩, rfl, rfl⟩
    exact ⟨w, hw, _, rfl, reason, hreason, [], by simp, (), trivial, rfl, rfl⟩

/-- The identity of the observation of a form. -/
def WireObservation.obsId (w : WireObservation) : ObservationId := ⟨w.envelope.id⟩

theorem reads_accepted (t : AcceptedSoFar) : Reads input (readAccepted t)
    (Spelled (fun w : WireObservation => w.ValidEntry ∧ t.seen.contains w.obsId = false)
      WireObservation.entry WireObservation.observation) := by
  refine (reads_obsEntry.bind fun o => (Reads.throw_if (t.seen.contains o.id) _).bind_pure
    fun _ => o).congr fun bs o => ?_
  constructor
  · rintro ⟨w, hw, _, rfl, -, hnew, rfl, rfl⟩
    exact ⟨w, ⟨hw, hnew⟩, List.append_nil _, rfl⟩
  · rintro ⟨w, ⟨hw, hnew⟩, rfl, rfl⟩
    exact ⟨w, hw, [], (List.append_nil _).symm, (), hnew, rfl, rfl⟩

/-- Each accepted form is new after those before it: their identities are distinct. -/
theorem along_accepted (t : AcceptedSoFar) (l : List WireObservation) :
    Along (fun (t : AcceptedSoFar) w => w.ValidEntry ∧ t.seen.contains w.obsId = false)
        WireObservation.observation AcceptedSoFar.push t l ↔
      (∀ w ∈ l, w.ValidEntry) ∧ (l.map WireObservation.obsId).Nodup ∧
        ∀ w ∈ l, t.seen.contains w.obsId = false := by
  induction l generalizing t with
  | nil => simp [Along]
  | cons w l ih =>
    have hseen : ∀ w' : WireObservation, (t.push w.observation).seen.contains w'.obsId = false ↔
        w.obsId ≠ w'.obsId ∧ t.seen.contains w'.obsId = false := by
      intro w'
      have hid : w.observation.id = w.obsId := rfl
      rw [AcceptedSoFar.push, ExtTreeSet.contains_insert, hid]
      simp
    simp only [Along, ih, hseen, List.forall_mem_cons, List.map_cons, List.nodup_cons,
      List.mem_map, not_exists, not_and]
    constructor
    · rintro ⟨⟨hw, hnew⟩, hl, hnodup, hrest⟩
      exact ⟨⟨hw, hl⟩, ⟨fun w' hw' heq => (hrest w' hw').1 heq.symm, hnodup⟩, hnew,
        fun w' hw' => (hrest w' hw').2⟩
    · rintro ⟨⟨hw, hl⟩, ⟨hnot, hnodup⟩, hnew, hrest⟩
      exact ⟨⟨hw, hnew⟩, hl, hnodup, fun w' hw' => ⟨fun heq => hnot w' hw' heq.symm, hrest w' hw'⟩⟩

theorem accepted_foldl_push (l : List Observation) (t : AcceptedSoFar) :
    (l.foldl AcceptedSoFar.push t).accepted = t.accepted ++ l := by
  induction l generalizing t with
  | nil => simp
  | cons o l ih =>
    rw [List.foldl_cons, ih, AcceptedSoFar.push, List.append_assoc]
    rfl

/-- The body of an archive as it is spelled. -/
structure WireArchive where
  reserved : UInt8
  epoch : UInt64
  createdNs : UInt64
  registry : List WireAuthority
  accepted : List WireObservation
  stale : List (WireObservation × Str)
  block : Bytes

namespace WireArchive

/-- The parts in the order of the wire. -/
def spell (w : WireArchive) : Bytes :=
  [bytes 4 kArchiveMagic.toNat, bytes 2 kArchiveVersion.toNat, [w.reserved],
    bytes 8 w.epoch.toNat, bytes 8 w.createdNs.toNat,
    bytes 4 w.registry.length, w.registry.flatMap WireAuthority.spell,
    bytes 4 w.accepted.length, w.accepted.flatMap WireObservation.entry,
    bytes 4 w.stale.length, w.stale.flatMap spellStale, prefixed w.block].flatten

/-- Every length and count fits in 32 bits, also where the reader rejects. -/
structure Fits (w : WireArchive) : Prop where
  registry_count : w.registry.length < 2 ^ 32
  registry : ∀ a ∈ w.registry, a.Valid
  accepted_count : w.accepted.length < 2 ^ 32
  accepted : ∀ o ∈ w.accepted, o.FitsEntry
  stale_count : w.stale.length < 2 ^ 32
  stale : ∀ p ∈ w.stale, p.1.FitsEntry ∧ p.2.length < 2 ^ 32
  block : w.block.length < 2 ^ 32

/-- The forms that the reader accepts. -/
structure Valid (w : WireArchive) : Prop where
  registry_count : w.registry.length ≤ 1000000
  registry : ∀ a ∈ w.registry, a.Valid
  accepted_count : w.accepted.length ≤ 1000000000
  accepted : ∀ o ∈ w.accepted, o.ValidEntry
  distinct : (w.accepted.map WireObservation.obsId).Nodup
  stale_count : w.stale.length ≤ 100000000
  stale : ∀ p ∈ w.stale, p.1.ValidEntry ∧ p.2.length < 2 ^ 32
  block : w.block.length < 2 ^ 32

/-- The sections that the reader returns. -/
def sections (w : WireArchive) : ArchiveSections :=
  { epoch := w.epoch, createdNs := w.createdNs,
    registry := w.registry.map WireAuthority.authority,
    accepted := w.accepted.map WireObservation.observation,
    stale := w.stale.map fun p => (p.1.observation, p.2), dbytes := w.block }

theorem Valid.fits {w : WireArchive} (h : w.Valid) : w.Fits where
  registry_count := h.registry_count.trans_lt (by decide)
  registry := h.registry
  accepted_count := h.accepted_count.trans_lt (by decide)
  accepted o ho := (h.accepted o ho).fits
  stale_count := h.stale_count.trans_lt (by decide)
  stale p hp := (h.stale p hp).imp_left WireObservation.ValidEntry.fits
  block := h.block

end WireArchive

theorem reads_expected {α : Type} {m : StateM BinaryReader α} [BEq α] [LawfulBEq α]
    {spell : α → Bytes} (hm : Reads input m (Spelled (fun _ => True) spell id)) (expected : α)
    (message : α → Str) : Reads input (readExpected m expected message)
      (Spelled (fun _ : Unit => True) (fun _ => spell expected) id) := by
  refine (hm.lift.bind fun v => Reads.throw_if (v != expected) (message v)).congr fun bs a => ?_
  constructor
  · rintro ⟨v, -, _, rfl, -, hv, rfl, -⟩
    obtain rfl : v = expected := by simpa using hv
    exact ⟨(), trivial, List.append_nil _, rfl⟩
  · rintro ⟨_, -, rfl, -⟩
    exact ⟨expected, trivial, [], (List.append_nil _).symm, (), by simp, rfl, rfl⟩

theorem reads_counted {α ω : Type} {items : ℕ → ObservationReader α} {valid : List ω → Prop}
    {spell : List ω → Bytes} {view : List ω → α} (limit : UInt64) (message : Str)
    (hlimit : limit.toNat < 2 ^ 32) (hitems : ∀ n, Reads input (items n)
      (Spelled (fun l : List ω => l.length = n ∧ valid l) spell view)) :
    Reads input (readCounted limit message items)
      (Spelled (fun l : List ω => l.length ≤ limit.toNat ∧ valid l)
        (fun l => bytes 4 l.length ++ spell l) view) := by
  refine (reads_count.lift.bind fun n => (Reads.throw_if (decide (n > limit)) message).bind
    fun _ => hitems n.toNat).congr fun bs a => ?_
  have hto : ∀ n < 2 ^ 32, (UInt64.ofNat n).toNat = n := fun n hn =>
    UInt64.toNat_ofNat_of_lt' (hn.trans (by decide))
  have hcheck : ∀ n < 2 ^ 32, (decide (UInt64.ofNat n > limit) = false ↔ n ≤ limit.toNat) := by
    intro n hn
    rw [decide_eq_false_iff_not, gt_iff_lt, UInt64.lt_iff_toNat_lt, hto n hn, Nat.not_lt]
  constructor
  · rintro ⟨n, hn, _, rfl, -, hle, _, rfl, l, ⟨hl, hvalid⟩, rfl, rfl⟩
    rw [hto n hn] at hl
    subst hl
    exact ⟨l, ⟨(hcheck _ hn).mp hle, hvalid⟩, rfl, rfl⟩
  · rintro ⟨l, ⟨hle, hvalid⟩, rfl, rfl⟩
    have hn : l.length < 2 ^ 32 := hle.trans_lt hlimit
    exact ⟨l.length, hn, _, rfl, (), (hcheck _ hn).mpr hle, _, rfl, l, ⟨(hto _ hn).symm, hvalid⟩,
      rfl, rfl⟩

namespace WireArchive

/-- The loop over the accepted entries. -/
theorem reads_acceptedList (n : ℕ) :
    Reads input (readEach readAccepted AcceptedSoFar.push n {})
      (Spelled (fun l : List WireObservation => l.length = n ∧ (∀ w ∈ l, w.ValidEntry) ∧
          (l.map WireObservation.obsId).Nodup) (List.flatMap WireObservation.entry)
        fun l => (l.map WireObservation.observation).foldl AcceptedSoFar.push {}) := by
  refine (Reads.each reads_accepted AcceptedSoFar.push n {}).congr fun bs t => ?_
  have hnew : ∀ w : WireObservation, ({} : AcceptedSoFar).seen.contains w.obsId = false := by
    simp
  simp only [Spelled, along_accepted, hnew, implies_true, and_true]

theorem reads : Reads input readSectionsOf (Spelled Valid spell sections) := by
  have hregistry := Reads.each_concat
    (WireAuthority.reads.adapt (lit "bad authority in archive: " ++ ·))
  refine ((reads_expected reads_u32 _ _).bind fun _ => (reads_expected reads_u16 _ _).bind fun _ =>
    reads_u8.lift.bind fun _ => reads_u64.lift.bind fun epoch =>
    reads_u64.lift.bind fun createdNs => (reads_counted 1000000 _ (by decide) hregistry).bind fun registry =>
    (reads_counted 1000000000 _ (by decide) reads_acceptedList).bind fun t =>
    (reads_counted 100000000 _ (by decide) (Reads.each_concat reads_staleEntry)).bind fun stale =>
    reads_prefixed.lift.bind_pure _).congr fun bs s => ?_
  constructor
  · rintro ⟨-, -, _, rfl, -, -, _, rfl, reserved, -, _, rfl, epoch, -, _, rfl, createdNs, -, _, rfl,
      registry, ⟨hreg, hregistry⟩, _, rfl, accepted, ⟨hacc, haccepted, hdistinct⟩, _, rfl,
      stale, ⟨hst, hstale⟩, _, rfl, block, hblock, rfl, rfl⟩
    refine ⟨⟨reserved, epoch, createdNs, registry, accepted, stale, block⟩,
      ⟨hreg, hregistry, hacc, haccepted, hdistinct, hst, hstale, hblock⟩, by simp [spell], ?_⟩
    simp [sections, accepted_foldl_push]
  · rintro ⟨w, hw, rfl, rfl⟩
    refine ⟨(), trivial, _, rfl, (), trivial, _, rfl, w.reserved, trivial, _, rfl, w.epoch, trivial,
      _, rfl, w.createdNs, trivial, _, rfl, w.registry, ⟨hw.registry_count, hw.registry⟩, _, rfl,
      w.accepted, ⟨hw.accepted_count, hw.accepted, hw.distinct⟩, _, rfl, w.stale,
      ⟨hw.stale_count, hw.stale⟩, _, rfl, w.block, hw.block, ?_, ?_⟩
    · simp
    · simp [sections, accepted_foldl_push]

theorem code_stale : PrefixCode
    (fun p : WireObservation × Str => p.1.FitsEntry ∧ p.2.length < 2 ^ 32) spellStale := by
  rintro ⟨w, reason⟩ ⟨w', reason'⟩ r r' ⟨hw, hreason⟩ ⟨hw', hreason'⟩ h
  simp only [spellStale, List.append_assoc] at h
  obtain ⟨hentry, htail⟩ := WireObservation.code_entry hw hw' h
  obtain ⟨htext, hr⟩ := prefixCode_of_reads reads_prefixed hreason hreason' htail
  exact ⟨Prod.ext hentry htext, hr⟩

/-- Different forms have different bytes, whatever follows them. -/
theorem code : PrefixCode Fits spell := by
  intro w w' r r' hw hw' h
  simp only [spell, List.flatten_cons, List.flatten_nil, List.append_nil, List.append_assoc] at h
  have h := List.append_cancel_left (List.append_cancel_left h)
  obtain ⟨hreserved, h⟩ := prefixCode_of_reads reads_u8 trivial trivial h
  obtain ⟨hepoch, h⟩ := prefixCode_of_reads reads_u64 trivial trivial h
  obtain ⟨hcreated, h⟩ := prefixCode_of_reads reads_u64 trivial trivial h
  obtain ⟨hcount, h⟩ := List.append_inj h (by simp)
  obtain ⟨hregistry, h⟩ := WireAuthority.code.flatMap
    (bytes_inj hw.registry_count hw'.registry_count hcount) hw.registry hw'.registry h
  obtain ⟨hcount, h⟩ := List.append_inj h (by simp)
  obtain ⟨haccepted, h⟩ := WireObservation.code_entry.flatMap
    (bytes_inj hw.accepted_count hw'.accepted_count hcount) hw.accepted hw'.accepted h
  obtain ⟨hcount, h⟩ := List.append_inj h (by simp)
  obtain ⟨hstale, h⟩ := code_stale.flatMap
    (bytes_inj hw.stale_count hw'.stale_count hcount) hw.stale hw'.stale h
  obtain ⟨hblock, hr⟩ := prefixCode_of_reads reads_prefixed hw.block hw'.block h
  refine ⟨?_, hr⟩
  cases w
  cases w'
  simp only at hreserved hepoch hcreated hregistry haccepted hstale hblock
  subst hreserved hepoch hcreated hregistry haccepted hstale hblock
  rfl

end WireArchive
end ServingObservatory
