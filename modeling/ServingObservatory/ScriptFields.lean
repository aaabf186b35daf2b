import ServingObservatory.DigitText
import ServingObservatory.IdentityText
import ServingObservatory.RestartBoot

/-!
# The fields of a script entry

The command line builds observations from scripts. The type of a field is guessed from its
text: an identity, a boolean, a double, an unsigned integer or else a string. Integers are
read with the prefixes of C.
-/
namespace ServingObservatory
open Std

def isSpace (c : UInt8) : Bool := c == 0x20 || (0x09 ≤ c && c ≤ 0x0D)

/-- The sign and what follows it. -/
def signed : Str → Bool × Str
  | 0x2D :: s => (true, s)
  | 0x2B :: s => (false, s)
  | s => (false, s)

/-- The base that the prefix stands for, and the text of the digits. -/
def based : Str → ℕ × Str
  | 0x30 :: x :: d :: t =>
    if (x == 0x78 || x == 0x58) && digitOf d < 16 then (16, d :: t) else (8, 0x30 :: x :: d :: t)
  | 0x30 :: t => (8, 0x30 :: t)
  | s => (10, s)

/-- `std::strtoull` with base 0. -/
def strtoull (s : Str) : UInt64 :=
  let (negative, s) := signed (s.dropWhile isSpace)
  let (base, s) := based s
  let n := Numerals.value base ((s.map digitOf).takeWhile (· < base))
  if n ≥ 2 ^ 64 then 0xFFFFFFFFFFFFFFFF
  else if negative then 0 - UInt64.ofNat n
  else UInt64.ofNat n

def parseId (s : Str) : Id128 :=
  match Id128.parse s with
  | .ok v => v
  | .error _ => ⟨0, strtoull s⟩

structure ScriptEntry where
  type : ObsType := .unknown
  obsTs : UInt64 := 0
  fields : ExtTreeMap Str Str := ∅

namespace Observation

def setField (o : Observation) (k : Str) (v : FieldValue) : Observation :=
  { o with fields := o.fields.insert k v }

end Observation

/-- `find_first_not_of` finds nothing. -/
def allOf (chars v : Str) : Bool := v.all chars.contains

/-- `find_first_of` finds something. -/
def anyOf (chars v : Str) : Bool := v.any chars.contains

section Script
variable (atof : Str → F64)

/-- The body of the loop over the fields of an entry. -/
def setScriptField (o : Observation) (k v : Str) : Observation :=
  if k = lit "request" then o.setField FieldKeys.requestId (.id (parseId v))
  else if k = lit "recv" then { o with hasRecvTs := true, recvTs := strtoull v }
  else if k = lit "is_warm" then
    o.setField FieldKeys.isWarm (.bool (v == lit "true" || v == lit "1"))
  else if v.length == 32 && allOf (lit "0123456789abcdefABCDEF") v then
    o.setField k (.id (parseId v))
  else if v == lit "true" || v == lit "false" || v == lit "1" || v == lit "0" then
    o.setField k (.bool (v == lit "true" || v == lit "1"))
  else if anyOf (lit ".eE") v && allOf (lit "0123456789.+-eE") v then o.setField k (.f64 (atof v))
  else if allOf (lit "0123456789") v then o.setField k (.u64 (strtoull v))
  else o.setField k (.str v)

/-- The observation before the fields of the entry are set. -/
def entryHeader (cfg : SourceConfig) (clockDomain : Str) (e : ScriptEntry) (seq : UInt64) :
    Observation :=
  let o : Observation :=
    { type := e.type, source := cfg.source, worker := cfg.worker, boot := cfg.boot,
      srcGen := cfg.srcGen, obsGen := cfg.obsGen, epoch := cfg.epoch, clockDomain := clockDomain,
      seq := seq + 1, provenance := .measured }
  if e.obsTs ≠ 0 then { o with hasObsTs := true, obsTs := e.obsTs } else o

/-- The observation of an entry, and the sequence number that was used up. -/
def buildObservation (cfg : SourceConfig) (clockDomain : Str) (e : ScriptEntry) (seq : UInt64) :
    Observation × UInt64 :=
  let o := e.fields.toList.foldl (fun o p => setScriptField atof o p.1 p.2)
    (entryHeader cfg clockDomain e seq)
  (o.mint, seq + 1)

def applyEntry (cfg : SourceConfig) (e : ScriptEntry) (seq : UInt64) : Observation × UInt64 :=
  buildObservation atof cfg cfg.clockDomain e seq

/-- `cmd_ingest` builds the same observation on a fixed clock. -/
def ingestEntry (cfg : SourceConfig) (e : ScriptEntry) (seq : UInt64) : Observation × UInt64 :=
  buildObservation atof cfg (lit "mono_ns") e seq

end Script

/-- The numerals that the guess leaves alone: no boolean, no identity, and no leading zero
unless a single octal digit is all that follows zeros. -/
structure KeepsValue (v : Str) : Prop where
  not_bool : v ≠ lit "0" ∧ v ≠ lit "1"
  not_id : v.length ≠ 32
  not_octal : v.head? = some 0x30 → (∀ c ∈ v.dropLast, c = 0x30) ∧ ∀ c ∈ v.getLast?, c ≤ 0x37

section Digits
variable {v : Str}

variable (hv : ∀ c ∈ v, IsDigit c)
include hv

/-- Digits have no prefix but the zero of octal numerals. -/
theorem based_of_digits : based v = (if v.head? = some 0x30 then 8 else 10, v) := by
  unfold based
  split
  · rename_i x d t
    have hx : IsDigit x := hv x (by simp)
    simp [hx.ne (e := 0x78) (by decide), hx.ne (e := 0x58) (by decide)]
  · simp
  · rename_i hno
    have hhead : v.head? ≠ some 0x30 := fun h => by
      obtain ⟨t, rfl⟩ := List.head?_eq_some_iff.mp h
      exact hno t rfl
    rw [if_neg hhead]

theorem allOf_of_digits {chars : Str} (hchars : allOf chars (lit "0123456789") = true) :
    allOf chars v = true :=
  List.all_eq_true.mpr fun c hc =>
    List.all_eq_true.mp hchars c (mem_digits_iff.mpr (hv c hc))

theorem anyOf_of_digits {chars : Str} (hchars : (chars.any fun c => decide (IsDigit c)) = false) :
    anyOf chars v = false := by
  refine List.any_eq_false.mpr fun c hc hmem => ?_
  have hno := List.any_eq_false.mp hchars c (by simpa using hmem)
  exact hno (by simpa using hv c hc)

theorem ne_of_digits {w : Str} (hw : (w.any fun c => !decide (IsDigit c)) = true) : v ≠ w := by
  rintro rfl
  obtain ⟨c, hc, hne⟩ := List.any_eq_true.mp hw
  simp [hv c hc] at hne

theorem signed_of_digits : signed (v.dropWhile isSpace) = (false, v) := by
  cases v with
  | nil => rfl
  | cons c t =>
    have hc : IsDigit c := hv c (by simp)
    have hlo : 48 ≤ c.toNat := UInt8.le_iff_toNat_le.mp hc.1
    have hspace : isSpace c = false := by
      have hhigh : ¬ c ≤ 0x0D := fun h => by
        have hle : c.toNat ≤ 13 := UInt8.le_iff_toNat_le.mp h
        omega
      simp [isSpace, hhigh, hc.ne (e := 0x20) (by decide)]
    rw [List.dropWhile_cons_of_neg (by simpa using hspace)]
    unfold signed
    split
    · rename_i heq
      exact absurd (List.cons.inj heq).1 (hc.ne (by decide))
    · rename_i heq
      exact absurd (List.cons.inj heq).1 (hc.ne (by decide))
    · rfl

theorem octal_eq_decimal_iff :
    Numerals.value 8 ((v.map digitOf).takeWhile (· < 8)) = decimalValue v ↔
      (∀ c ∈ v.dropLast, c = 0x30) ∧ ∀ c ∈ v.getLast?, c ≤ 0x37 := by
  rw [decimalValue, Numerals.value_takeWhile_eq_iff (by norm_num) (by norm_num),
    ← List.map_dropLast, List.getLast?_map]
  refine and_congr ?_ ?_
  · rw [List.forall_mem_map]
    exact forall₂_congr fun c hc => digitOf_eq_zero_iff (hv c (List.mem_of_mem_dropLast hc))
  · simp only [Option.mem_def, Option.map_eq_some_iff]
    constructor
    · exact fun h c hc => (digitOf_lt_iff (hv c (List.mem_of_getLast? hc))).mp (h _ ⟨c, hc, rfl⟩)
    · rintro h _ ⟨c, hc, rfl⟩
      exact (digitOf_lt_iff (hv c (List.mem_of_getLast? hc))).mpr (h c hc)

theorem takeWhile_digits : (v.map digitOf).takeWhile (· < 10) = v.map digitOf :=
  List.takeWhile_eq_self_iff.mpr fun d hd => by
    obtain ⟨c, hc, rfl⟩ := List.mem_map.mp hd
    exact decide_eq_true (digitOf_lt_ten (hv c hc))

/-- A numeral is converted to what it denotes unless it is octal. -/
theorem strtoull_of_digits (hfit : decimalValue v < 2 ^ 64) :
    strtoull v = UInt64.ofNat (decimalValue v) ↔
      (v.head? = some 0x30 → (∀ c ∈ v.dropLast, c = 0x30) ∧ ∀ c ∈ v.getLast?, c ≤ 0x37) := by
  unfold strtoull
  rw [signed_of_digits hv]
  simp only [based_of_digits hv]
  by_cases hzero : v.head? = some 0x30
  · have hle : Numerals.value 8 ((v.map digitOf).takeWhile (· < 8)) ≤ decimalValue v :=
      Numerals.foldl_takeWhile_le (by norm_num) le_rfl _
    have hoct : Numerals.value 8 ((v.map digitOf).takeWhile (· < 8)) < 2 ^ 64 := hle.trans_lt hfit
    simp only [if_pos hzero, ge_iff_le, Nat.not_le.mpr hoct, if_false, Bool.false_eq_true]
    rw [← octal_eq_decimal_iff hv, ← UInt64.toNat_inj, UInt64.toNat_ofNat_of_lt' hoct,
      UInt64.toNat_ofNat_of_lt' hfit]
    simp [hzero]
  · have hlt : ¬ Numerals.value 10 (v.map digitOf) ≥ 2 ^ 64 := Nat.not_le.mpr hfit
    simp only [if_neg hzero, takeWhile_digits hv, if_neg hlt, Bool.false_eq_true, if_false]
    exact iff_of_true rfl fun h => absurd h hzero

end Digits

/-- The keys that are not stored under their own type. -/
def specialKeys : List Str := [lit "request", lit "recv", lit "is_warm"]

section Fields
variable (atof : Str → F64) {k v : Str}

@[simp] theorem getElem?_setField (o : Observation) (k' : Str) (w : FieldValue) :
    (o.setField k' w).fields[k]? = if k' = k then some w else o.fields[k]? := by
  simp [Observation.setField, ExtTreeMap.getElem?_insert]

theorem setScriptField_of_ne (o : Observation) {k' : Str} (v' : Str) (hne : k' ≠ k)
    (hreq : k' = lit "request" → k ≠ FieldKeys.requestId) :
    (setScriptField atof o k' v').fields[k]? = o.fields[k]? := by
  unfold setScriptField
  split_ifs with hrequest hrecv hwarm
  · rw [getElem?_setField, if_neg (hreq hrequest).symm]
  · rfl
  · have hwarm : k' = FieldKeys.isWarm := hwarm
    rw [getElem?_setField, if_neg (hwarm ▸ hne)]
  all_goals rw [getElem?_setField, if_neg hne]

/-- The type that is guessed for a decimal numeral. -/
theorem setScriptField_of_digits (o : Observation) (hk : k ∉ specialKeys)
    (hv : ∀ c ∈ v, IsDigit c) : (setScriptField atof o k v).fields[k]? = some (
      if v.length = 32 then .id (parseId v)
      else if v = lit "1" ∨ v = lit "0" then .bool (v == lit "1")
      else .u64 (strtoull v)) := by
  simp only [specialKeys, List.mem_cons, List.not_mem_nil, or_false, not_or] at hk
  obtain ⟨hrequest, hrecv, hwarm⟩ := hk
  have hhex : allOf (lit "0123456789abcdefABCDEF") v = true := allOf_of_digits hv (by decide)
  have hdigits : allOf (lit "0123456789") v = true := allOf_of_digits hv (by decide)
  have hpoint : anyOf (lit ".eE") v = false := anyOf_of_digits hv (by decide)
  have htrue : v ≠ lit "true" := ne_of_digits hv (by decide)
  have hfalse : v ≠ lit "false" := ne_of_digits hv (by decide)
  unfold setScriptField
  rw [if_neg hrequest, if_neg hrecv, if_neg hwarm]
  simp only [hhex, hdigits, hpoint, htrue, hfalse, beq_iff_eq, Bool.and_true, Bool.false_and,
    Bool.or_eq_true, false_or, Bool.false_eq_true, if_true, if_false]
  split_ifs <;> simp [htrue]

/-- Later fields leave the field alone: an entry for the request comes before the field that
it sets. -/
theorem foldl_setScriptField_of_later {l : List (Str × Str)}
    (hl : ∀ p ∈ l, compare k p.1 = .lt) (o : Observation) :
    (l.foldl (fun o p => setScriptField atof o p.1 p.2) o).fields[k]? = o.fields[k]? := by
  induction l generalizing o with
  | nil => rfl
  | cons p l ih =>
    obtain ⟨hp, hl⟩ := List.forall_mem_cons.mp hl
    have hne : p.1 ≠ k := fun h => by simp [h, ReflCmp.compare_self] at hp
    have hreq : p.1 = lit "request" → k ≠ FieldKeys.requestId := by
      rintro h rfl
      rw [h] at hp
      revert hp
      decide
    rw [List.foldl_cons, ih hl, setScriptField_of_ne atof o p.2 hne hreq]

/-- What an observation holds under the key of a decimal numeral. -/
theorem foldl_setScriptField {l : List (Str × Str)} (hl : OrderedMap.SortedKeys l)
    (hmem : (k, v) ∈ l) (hk : k ∉ specialKeys) (hv : ∀ c ∈ v, IsDigit c) (o : Observation) :
    (l.foldl (fun o p => setScriptField atof o p.1 p.2) o).fields[k]? = some (
      if v.length = 32 then .id (parseId v)
      else if v = lit "1" ∨ v = lit "0" then .bool (v == lit "1")
      else .u64 (strtoull v)) := by
  induction l generalizing o with
  | nil => cases hmem
  | cons p l ih =>
    obtain ⟨hp, hl⟩ := List.pairwise_cons.mp hl
    rw [List.foldl_cons]
    rcases List.mem_cons.mp hmem with rfl | hmem
    · rw [foldl_setScriptField_of_later atof hp, setScriptField_of_digits atof o hk hv]
    · exact ih hl hmem _

/-- The observations of a script have derived identities. -/
theorem minted_buildObservation (cfg : SourceConfig) (clockDomain : Str) (e : ScriptEntry)
    (seq : UInt64) : (buildObservation atof cfg clockDomain e seq).1.Minted :=
  Observation.minted_mint _

theorem u64Field_buildObservation_iff (cfg : SourceConfig) (clockDomain : Str) {e : ScriptEntry}
    (seq : UInt64) (hentry : e.fields[k]? = some v) (hk : k ∉ specialKeys)
    (hv : ∀ c ∈ v, IsDigit c) (hfit : decimalValue v < 2 ^ 64) :
    (∀ d, (buildObservation atof cfg clockDomain e seq).1.u64Field k d =
      UInt64.ofNat (decimalValue v)) ↔ KeepsValue v := by
  have hfield := foldl_setScriptField atof (OrderedMap.sortedKeys_toList e.fields)
    (ExtTreeMap.mem_toList_iff_getElem?_eq_some.mpr hentry) hk hv
    (entryHeader cfg clockDomain e seq)
  rw [← Observation.fields_mint] at hfield
  have hlost : ∀ n : UInt64, ¬ ∀ d : UInt64, d = n := fun n h => by
    simpa using h (n + 1)
  simp only [buildObservation, Observation.u64Field, hfield]
  by_cases hid : v.length = 32
  · simp only [if_pos hid]
    exact iff_of_false (hlost _) fun h => h.not_id hid
  by_cases hbool : v = lit "1" ∨ v = lit "0"
  · simp only [if_neg hid, if_pos hbool]
    exact iff_of_false (hlost _) fun h => hbool.elim h.not_bool.2 h.not_bool.1
  · simp only [if_neg hid, if_neg hbool]
    rw [forall_const, strtoull_of_digits hv hfit]
    rw [not_or] at hbool
    exact ⟨fun h => ⟨⟨hbool.2, hbool.1⟩, hid, h⟩, fun h => h.not_octal⟩

/-- A decimal numeral of a script keeps its value in the observation that either builder makes
of the entry unless the guess takes it for something else. -/
theorem scriptField_kept_iff (cfg : SourceConfig) (e : ScriptEntry) (seq : UInt64)
    (hentry : e.fields[k]? = some v) (hk : k ∉ specialKeys) (hv : ∀ c ∈ v, IsDigit c)
    (hfit : decimalValue v < 2 ^ 64) :
    ((∀ d, (applyEntry atof cfg e seq).1.u64Field k d = UInt64.ofNat (decimalValue v)) ↔
        KeepsValue v) ∧
      ((∀ d, (ingestEntry atof cfg e seq).1.u64Field k d = UInt64.ofNat (decimalValue v)) ↔
        KeepsValue v) :=
  ⟨u64Field_buildObservation_iff atof cfg cfg.clockDomain seq hentry hk hv hfit,
    u64Field_buildObservation_iff atof cfg (lit "mono_ns") seq hentry hk hv hfit⟩

/-- A request that put out twelve tokens. -/
def twelveTokens : ScriptEntry :=
  { type := .decodeStepEnd, fields := (∅ : ExtTreeMap Str Str).insert FieldKeys.outputTokens
      (lit "12") }

theorem scriptField_kept_twelveTokens :
    ((∀ d, (applyEntry (fun _ => ⟨0⟩) {} twelveTokens 0).1.u64Field FieldKeys.outputTokens d =
        UInt64.ofNat (decimalValue (lit "12"))) ↔ KeepsValue (lit "12")) ∧
      ((∀ d, (ingestEntry (fun _ => ⟨0⟩) {} twelveTokens 0).1.u64Field FieldKeys.outputTokens d =
        UInt64.ofNat (decimalValue (lit "12"))) ↔ KeepsValue (lit "12")) :=
  scriptField_kept_iff _ {} twelveTokens 0 (by simp [twelveTokens]) (by decide)
    (isDigit_of_all (by decide)) (by decide)

/-- One token is taken for a boolean. -/
theorem not_kept_oneToken : ¬ ∀ (e : ScriptEntry) (k v : Str), e.fields[k]? = some v →
    k ∉ specialKeys → v ≠ [] → (∀ c ∈ v, IsDigit c) → decimalValue v < 2 ^ 64 →
      ∀ d, (applyEntry (fun _ => ⟨0⟩) {} e 0).1.u64Field k d = UInt64.ofNat (decimalValue v) := by
  intro h
  let e : ScriptEntry :=
    { type := .decodeStepStart, fields := (∅ : ExtTreeMap Str Str).insert FieldKeys.outputTokens
        (lit "1") }
  have hentry : e.fields[FieldKeys.outputTokens]? = some (lit "1") := by simp [e]
  have hone : ∀ c ∈ lit "1", IsDigit c := isDigit_of_all (by decide)
  have hkept := (u64Field_buildObservation_iff (fun _ => ⟨0⟩) {} (lit "mono_ns") 0 hentry
    (by decide) hone (by decide)).mp (h e _ _ hentry (by decide) (by decide) hone (by decide))
  exact hkept.not_bool.2 rfl

end Fields
end ServingObservatory
