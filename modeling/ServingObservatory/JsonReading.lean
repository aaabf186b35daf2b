import ServingObservatory.Decoding
import ServingObservatory.DigitText
import ServingObservatory.IdentityText
import ServingObservatory.Json

/-!
# The canonical text determines the value

Two values are read from their texts side by side. A string ends at the first quote that is
not escaped, a number where no digit follows, and everything else at its closing bracket, so
that equal texts have equal values and equal ends.
-/
namespace ServingObservatory
open Decoding
namespace Json

/-- Reads the byte that an escape sequence or a plain byte stands for. -/
def unescape : Str → Option (UInt8 × Str)
  | 0x5C :: 0x22 :: t => some (0x22, t)
  | 0x5C :: 0x5C :: t => some (0x5C, t)
  | 0x5C :: 0x6E :: t => some (0x0A, t)
  | 0x5C :: 0x72 :: t => some (0x0D, t)
  | 0x5C :: 0x74 :: t => some (0x09, t)
  | 0x5C :: 0x62 :: t => some (0x08, t)
  | 0x5C :: 0x66 :: t => some (0x0C, t)
  | 0x5C :: 0x75 :: _ :: _ :: h :: l :: t => some (Id128.nibble h * 16 + Id128.nibble l, t)
  | c :: t => some (c, t)
  | [] => none

theorem unescape_plain {c : UInt8} (hc : c ≠ 0x5C) (t : Str) : unescape (c :: t) = some (c, t) := by
  unfold unescape
  split
  case h_9 heq =>
    cases heq
    rfl
  case h_10 heq => cases heq
  all_goals
    rename_i heq
    exact absurd (List.cons.inj heq).1 hc

/-- The two hexadecimal digits of a control character. -/
theorem nibbles_eq {c : UInt8} (hc : c < 0x20) :
    Id128.nibble (Id128.kHex.getD (c >>> 4).toNat 0) * 16 +
      Id128.nibble (Id128.kHex.getD (c &&& 0xF).toNat 0) = c := by
  have hall : ∀ n < 32, Id128.nibble (Id128.kHex.getD (UInt8.ofNat n >>> 4).toNat 0) * 16 +
      Id128.nibble (Id128.kHex.getD (UInt8.ofNat n &&& 0xF).toNat 0) = UInt8.ofNat n := by decide
  have hlt : c.toNat < 32 := UInt8.lt_iff_toNat_lt.mp hc
  simpa using hall c.toNat hlt

theorem unescape_escapeByte (c : UInt8) (t : Str) : unescape (escapeByte c ++ t) = some (c, t) := by
  unfold escapeByte
  split_ifs with h₁ h₂ h₃ h₄ h₅ h₆ h₇ h₈
  · rw [h₁]; rfl
  · rw [h₂]; rfl
  · rw [h₃]; rfl
  · rw [h₄]; rfl
  · rw [h₅]; rfl
  · rw [h₆]; rfl
  · rw [h₇]; rfl
  · exact congrArg (fun c => some (c, t)) (nibbles_eq h₈)
  · exact unescape_plain h₂ t

theorem code_escapeByte : PrefixCode (fun _ => True) escapeByte := by
  intro c c' t t' _ _ h
  have hread := congrArg unescape h
  rw [unescape_escapeByte, unescape_escapeByte, Option.some.injEq, Prod.mk.injEq] at hread
  exact hread

/-- No escape sequence begins with a quote. -/
theorem escapeByte_append_ne_quote (c : UInt8) (t t' : Str) : escapeByte c ++ t ≠ 0x22 :: t' := by
  intro h
  have hhead := congrArg List.head? h
  unfold escapeByte at hhead
  split_ifs at hhead with h₁ <;> simp at hhead
  exact h₁ hhead

theorem escapeJson_append_inj {s s' r r' : Str}
    (h : escapeJson s ++ 0x22 :: r = escapeJson s' ++ 0x22 :: r') : s = s' ∧ r = r' := by
  induction s generalizing s' with
  | nil =>
    cases s' with
    | nil => exact ⟨rfl, (List.cons.inj h).2⟩
    | cons c s' =>
      rw [escapeJson, escapeJson, List.flatMap_cons, List.append_assoc] at h
      exact absurd h.symm (escapeByte_append_ne_quote c _ _)
  | cons c s ih =>
    cases s' with
    | nil =>
      rw [escapeJson, escapeJson, List.flatMap_cons, List.append_assoc] at h
      exact absurd h (escapeByte_append_ne_quote c _ _)
    | cons c' s' =>
      rw [escapeJson, escapeJson, List.flatMap_cons, List.flatMap_cons, List.append_assoc,
        List.append_assoc] at h
      obtain ⟨hc, hrest⟩ := code_escapeByte trivial trivial h
      obtain ⟨hs, hr⟩ := ih hrest
      exact ⟨hc ▸ hs ▸ rfl, hr⟩

/-- A string ends at its closing quote, whatever follows. -/
theorem code_quoted : PrefixCode (fun _ => True) quoted := by
  intro s s' r r' _ _ h
  simp only [quoted, List.append_assoc, List.singleton_append] at h
  exact escapeJson_append_inj (List.cons.inj h).2

theorem escapeJson_injective : Function.Injective escapeJson := by
  intro s s' h
  have hquoted : quoted s ++ [] = quoted s' ++ [] := by rw [quoted, quoted, h]
  exact (code_quoted trivial trivial hquoted).1

/-- No digit follows. -/
def Delimited (r : Str) : Prop := ∀ c ∈ r.head?, ¬ IsDigit c

theorem delimited_cons {c : UInt8} (hc : ¬ IsDigit c) (t : Str) : Delimited (c :: t) := by
  intro c' hc'
  rwa [← Option.some.inj hc']

theorem takeWhile_decimal {r : Str} (hr : Delimited r) (n : ℕ) :
    (decimal n ++ r).takeWhile (fun c => decide (IsDigit c)) = decimal n := by
  rw [List.takeWhile_append_of_pos fun c hc => decide_eq_true (isDigit_of_mem_decimal hc)]
  cases r with
  | nil => simp
  | cons c r => simp [hr c rfl]

theorem decimal_append_inj {m n : ℕ} {r r' : Str} (hr : Delimited r) (hr' : Delimited r')
    (h : decimal m ++ r = decimal n ++ r') : m = n ∧ r = r' := by
  have hdigits := congrArg (List.takeWhile fun c => decide (IsDigit c)) h
  rw [takeWhile_decimal hr, takeWhile_decimal hr'] at hdigits
  have hvalue := congrArg decimalValue hdigits
  rw [decimalValue_decimal, decimalValue_decimal] at hvalue
  rw [hvalue] at h
  exact ⟨hvalue, List.append_cancel_left h⟩

/-- `std::to_string` of an integer. -/
def numeral (z : ℤ) : Str := lit (toString z)

theorem numeral_natCast (n : ℕ) : numeral n = decimal n := rfl

theorem numeral_negSucc (n : ℕ) : numeral (Int.negSucc n) = 0x2D :: decimal (n + 1) := by
  have htext : toString (Int.negSucc n) = "-" ++ toString (n + 1) := rfl
  rw [numeral, htext, lit, String.toList_append, List.map_append]
  rfl

theorem exists_decimal (n : ℕ) : ∃ c t, decimal n = c :: t ∧ IsDigit c := by
  obtain ⟨c, t, h⟩ := List.exists_cons_of_ne_nil (decimal_ne_nil n)
  exact ⟨c, t, h, isDigit_of_mem_decimal (h ▸ List.mem_cons_self)⟩

theorem decimal_append_ne_minus (n : ℕ) (r t : Str) : decimal n ++ r ≠ 0x2D :: t := by
  obtain ⟨c, t', h, hc⟩ := exists_decimal n
  rw [h, List.cons_append]
  exact fun heq => hc.ne (by decide) (List.cons.inj heq).1

/-- A number ends where no digit follows. -/
theorem numeral_append_inj {z z' : ℤ} {r r' : Str} (hr : Delimited r) (hr' : Delimited r')
    (h : numeral z ++ r = numeral z' ++ r') : z = z' ∧ r = r' := by
  cases z with
  | ofNat m =>
    cases z' with
    | ofNat n =>
      obtain ⟨hmn, hrr⟩ := decimal_append_inj hr hr' h
      exact ⟨congrArg Int.ofNat hmn, hrr⟩
    | negSucc n =>
      rw [numeral_negSucc] at h
      exact absurd h (decimal_append_ne_minus m r _)
  | negSucc m =>
    rw [numeral_negSucc] at h
    cases z' with
    | ofNat n => exact absurd h.symm (decimal_append_ne_minus n r' _)
    | negSucc n =>
      rw [numeral_negSucc] at h
      obtain ⟨hmn, hrr⟩ := decimal_append_inj hr hr' (List.cons.inj h).2
      exact ⟨congrArg Int.negSucc (Nat.succ.inj hmn), hrr⟩

/-- What the first byte of a text tells. -/
inductive Kind
  | null
  | bool
  | number
  | string
  | array
  | object

def kindOfByte (c : UInt8) : Option Kind :=
  if c = 0x6E then some .null
  else if c = 0x74 ∨ c = 0x66 then some .bool
  else if c = 0x22 then some .string
  else if c = 0x5B then some .array
  else if c = 0x7B then some .object
  else if c = 0x2D ∨ IsDigit c then some .number
  else none

def kind : Json → Option Kind
  | null => some .null
  | bool _ => some .bool
  | int _ => some .number
  | uint _ => some .number
  | double _ => none
  | string _ => some .string
  | array _ => some .array
  | object _ => some .object

/-- The value of an integer of either tag. -/
def number? : Json → Option ℤ
  | int v => some v.toInt
  | uint v => some v.toNat
  | _ => none

mutual

def NoDoubles : Json → Prop
  | double _ => False
  | array items => NoDoublesItems items
  | object members => NoDoublesMembers members
  | _ => True

def NoDoublesItems : List Json → Prop
  | [] => True
  | e :: items => NoDoubles e ∧ NoDoublesItems items

def NoDoublesMembers : List (Str × Json) → Prop
  | [] => True
  | (_, v) :: members => NoDoubles v ∧ NoDoublesMembers members

end

mutual

/-- Equal up to the tags of integers with the same value. -/
def SameValue : Json → Json → Prop
  | null, null => True
  | bool a, bool b => a = b
  | string s, string t => s = t
  | array items, array items' => SameItems items items'
  | object members, object members' => SameMembers members members'
  | a, b => ∃ z, a.number? = some z ∧ b.number? = some z

def SameItems : List Json → List Json → Prop
  | [], [] => True
  | e :: items, e' :: items' => SameValue e e' ∧ SameItems items items'
  | _, _ => False

def SameMembers : List (Str × Json) → List (Str × Json) → Prop
  | [], [] => True
  | (k, v) :: members, (k', v') :: members' => k = k' ∧ SameValue v v' ∧ SameMembers members members'
  | _, _ => False

end

theorem kindOfByte_of_isDigit {c : UInt8} (hc : IsDigit c) : kindOfByte c = some .number := by
  simp [kindOfByte, hc, hc.ne (e := 0x6E) (by decide), hc.ne (e := 0x74) (by decide),
    hc.ne (e := 0x66) (by decide), hc.ne (e := 0x22) (by decide), hc.ne (e := 0x5B) (by decide),
    hc.ne (e := 0x7B) (by decide)]

theorem sameValue_of_number {a b : Json} {z : ℤ} (ha : a.number? = some z)
    (hb : b.number? = some z) : SameValue a b := by
  cases a <;> cases b <;> first | exact ⟨z, ha, hb⟩ | cases ha

section Reading
variable [Platform]

theorem writeJson_of_number {a : Json} {z : ℤ} (h : a.number? = some z) :
    writeJson a = numeral z := by
  cases a <;> simp only [number?, Option.some.injEq, reduceCtorEq] at h
  · rw [writeJson, ← h, numeral]
  · rw [writeJson, ← h, numeral_natCast]

/-- The first byte of a text tells the kind of the value. -/
theorem exists_writeJson {a : Json} (h : a.NoDoubles) :
    ∃ c t, writeJson a = c :: t ∧ kindOfByte c = a.kind ∧ a.kind ≠ none := by
  have hnumber : ∀ z, a.number? = some z → a.kind = some .number →
      ∃ c t, writeJson a = c :: t ∧ kindOfByte c = a.kind ∧ a.kind ≠ none := by
    intro z hz hkind
    rw [writeJson_of_number hz, hkind]
    cases z with
    | ofNat n =>
      obtain ⟨c, t, htext, hc⟩ := exists_decimal n
      exact ⟨c, t, htext, kindOfByte_of_isDigit hc, nofun⟩
    | negSucc n => exact ⟨0x2D, _, numeral_negSucc n, rfl, nofun⟩
  cases a with
  | null => exact ⟨0x6E, lit "ull", rfl, rfl, nofun⟩
  | bool b => cases b <;> exact ⟨_, _, rfl, rfl, nofun⟩
  | int v => exact hnumber _ rfl rfl
  | uint v => exact hnumber _ rfl rfl
  | double d => exact h.elim
  | string s => exact ⟨0x22, _, rfl, rfl, nofun⟩
  | array items => exact ⟨0x5B, _, rfl, rfl, nofun⟩
  | object members => exact ⟨0x7B, _, rfl, rfl, nofun⟩

theorem kind_eq {a b : Json} {r r' : Str} (ha : a.NoDoubles) (hb : b.NoDoubles)
    (h : writeJson a ++ r = writeJson b ++ r') : a.kind = b.kind := by
  obtain ⟨c, t, hwa, hka, -⟩ := exists_writeJson ha
  obtain ⟨c', t', hwb, hkb, -⟩ := exists_writeJson hb
  rw [hwa, hwb] at h
  rw [← hka, ← hkb, (List.cons.inj h).1]

theorem writeItems_end_delimited (items : List Json) (r : Str) :
    Delimited (writeItems false items ++ 0x5D :: r) := by
  cases items with
  | nil => exact delimited_cons (by decide) r
  | cons e items => exact delimited_cons (by decide) _

theorem writeMembers_end_delimited (members : List (Str × Json)) (r : Str) :
    Delimited (writeMembers false members ++ 0x7D :: r) := by
  cases members with
  | nil => exact delimited_cons (by decide) r
  | cons p members => exact delimited_cons (by decide) _

/-- An element or a comma is no closing bracket. -/
theorem writeItems_cons_ne {e : Json} (he : e.NoDoubles) (items : List Json) (first : Bool)
    (r t : Str) : writeItems first (e :: items) ++ r ≠ 0x5D :: t := by
  intro h
  cases first with
  | false => exact absurd (List.cons.inj h).1 (by decide)
  | true =>
    obtain ⟨c, t', htext, hkind, hne⟩ := exists_writeJson he
    rw [writeItems, htext] at h
    have hc : c = 0x5D := (List.cons.inj h).1
    rw [← hkind, hc] at hne
    exact hne (by decide)

theorem writeMembers_cons_ne (p : Str × Json) (members : List (Str × Json)) (first : Bool)
    (r t : Str) : writeMembers first (p :: members) ++ r ≠ 0x7D :: t := by
  intro h
  cases first <;> exact absurd (List.cons.inj h).1 (by decide)

/-- Two numbers whose texts agree have one value. -/
theorem sameValue_of_numeral {a b : Json} {z : ℤ} {r r' : Str} (ha : a.number? = some z)
    (hb : b.kind = some .number) (hr : Delimited r) (hr' : Delimited r')
    (h : writeJson a ++ r = writeJson b ++ r') : SameValue a b ∧ r = r' := by
  obtain ⟨z', hz'⟩ : ∃ z', b.number? = some z' := by
    cases b <;> first | exact ⟨_, rfl⟩ | cases hb
  rw [writeJson_of_number ha, writeJson_of_number hz'] at h
  obtain ⟨rfl, hrr⟩ := numeral_append_inj hr hr' h
  exact ⟨sameValue_of_number ha hz', hrr⟩

mutual

/-- Two texts that agree, whatever delimited ends follow them, are those of one value. -/
theorem sameValue_of_append : ∀ (a b : Json) {r r' : Str}, a.NoDoubles → b.NoDoubles →
    Delimited r → Delimited r' → writeJson a ++ r = writeJson b ++ r' → SameValue a b ∧ r = r'
  | null, b, r, r', ha, hb, hr, hr', h => by
    have hkind := kind_eq ha hb h
    cases b <;> cases hkind
    exact ⟨trivial, List.append_cancel_left h⟩
  | bool x, b, r, r', ha, hb, hr, hr', h => by
    have hkind := kind_eq ha hb h
    cases b with
    | bool y =>
      have hxy : x = y := by
        cases x <;> cases y <;> first | rfl | exact absurd (List.cons.inj h).1 (by decide)
      subst hxy
      exact ⟨rfl, List.append_cancel_left h⟩
    | _ => cases hkind
  | int v, b, r, r', ha, hb, hr, hr', h =>
    sameValue_of_numeral rfl (kind_eq ha hb h).symm hr hr' h
  | uint v, b, r, r', ha, hb, hr, hr', h =>
    sameValue_of_numeral rfl (kind_eq ha hb h).symm hr hr' h
  | double d, b, r, r', ha, hb, hr, hr', h => ha.elim
  | string s, b, r, r', ha, hb, hr, hr', h => by
    have hkind := kind_eq ha hb h
    cases b <;> cases hkind
    exact code_quoted trivial trivial h
  | array items, b, r, r', ha, hb, hr, hr', h => by
    have hkind := kind_eq ha hb h
    cases b with
    | array items' =>
      simp only [writeJson, List.append_assoc] at h
      exact sameItems_of_append items items' true ha hb (List.append_cancel_left h)
    | _ => cases hkind
  | object members, b, r, r', ha, hb, hr, hr', h => by
    have hkind := kind_eq ha hb h
    cases b with
    | object members' =>
      simp only [writeJson, List.append_assoc] at h
      exact sameMembers_of_append members members' true ha hb (List.append_cancel_left h)
    | _ => cases hkind

theorem sameItems_of_append : ∀ (items items' : List Json) (first : Bool) {r r' : Str},
    NoDoublesItems items → NoDoublesItems items' →
    writeItems first items ++ 0x5D :: r = writeItems first items' ++ 0x5D :: r' →
      SameItems items items' ∧ r = r'
  | [], [], first, r, r', hi, hi', h => ⟨trivial, (List.cons.inj h).2⟩
  | [], e' :: items', first, r, r', hi, hi', h =>
    absurd h.symm (writeItems_cons_ne hi'.1 items' first _ _)
  | e :: items, [], first, r, r', hi, hi', h => absurd h (writeItems_cons_ne hi.1 items first _ _)
  | e :: items, e' :: items', first, r, r', hi, hi', h => by
    simp only [writeItems, List.append_assoc] at h
    obtain ⟨hvalue, h⟩ := sameValue_of_append e e' hi.1 hi'.1 (writeItems_end_delimited items r)
      (writeItems_end_delimited items' r') (List.append_cancel_left h)
    obtain ⟨hitems, hr⟩ := sameItems_of_append items items' false hi.2 hi'.2 h
    exact ⟨⟨hvalue, hitems⟩, hr⟩

theorem sameMembers_of_append : ∀ (members members' : List (Str × Json)) (first : Bool)
    {r r' : Str}, NoDoublesMembers members → NoDoublesMembers members' →
    writeMembers first members ++ 0x7D :: r = writeMembers first members' ++ 0x7D :: r' →
      SameMembers members members' ∧ r = r'
  | [], [], first, r, r', hm, hm', h => ⟨trivial, (List.cons.inj h).2⟩
  | [], p' :: members', first, r, r', hm, hm', h =>
    absurd h.symm (writeMembers_cons_ne p' members' first _ _)
  | p :: members, [], first, r, r', hm, hm', h =>
    absurd h (writeMembers_cons_ne p members first _ _)
  | (k, v) :: members, (k', v') :: members', first, r, r', hm, hm', h => by
    simp only [writeMembers, List.append_assoc] at h
    obtain ⟨hkey, h⟩ := code_quoted trivial trivial (List.append_cancel_left h)
    obtain ⟨hvalue, h⟩ := sameValue_of_append v v' hm.1 hm'.1 (writeMembers_end_delimited members r)
      (writeMembers_end_delimited members' r') (List.append_cancel_left h)
    obtain ⟨hmembers, hr⟩ := sameMembers_of_append members members' false hm.2 hm'.2 h
    exact ⟨⟨hkey, hvalue, hmembers⟩, hr⟩

end

mutual

theorem writeJson_of_sameValue : ∀ a b : Json, SameValue a b → writeJson a = writeJson b
  | null, b, h => by
    cases b with
    | null => rfl
    | _ => obtain ⟨z, hz, -⟩ := h; cases hz
  | bool x, b, h => by
    cases b with
    | bool y => exact congrArg (fun x => writeJson (bool x)) h
    | _ => obtain ⟨z, hz, -⟩ := h; cases hz
  | int v, b, h => by
    obtain ⟨z, hz, hz'⟩ : ∃ z, (int v).number? = some z ∧ b.number? = some z := by
      cases b <;> exact h
    rw [writeJson_of_number hz, writeJson_of_number hz']
  | uint v, b, h => by
    obtain ⟨z, hz, hz'⟩ : ∃ z, (uint v).number? = some z ∧ b.number? = some z := by
      cases b <;> exact h
    rw [writeJson_of_number hz, writeJson_of_number hz']
  | double d, b, h => by
    obtain ⟨z, hz, -⟩ : ∃ z, (double d).number? = some z ∧ b.number? = some z := by
      cases b <;> exact h
    cases hz
  | string s, b, h => by
    cases b with
    | string t => exact congrArg (fun s => writeJson (string s)) h
    | _ => obtain ⟨z, hz, -⟩ := h; cases hz
  | array items, b, h => by
    cases b with
    | array items' =>
      rw [writeJson, writeJson, writeItems_of_sameItems items items' true h]
    | _ => obtain ⟨z, hz, -⟩ := h; cases hz
  | object members, b, h => by
    cases b with
    | object members' =>
      rw [writeJson, writeJson, writeMembers_of_sameMembers members members' true h]
    | _ => obtain ⟨z, hz, -⟩ := h; cases hz

theorem writeItems_of_sameItems : ∀ (items items' : List Json) (first : Bool),
    SameItems items items' → writeItems first items = writeItems first items'
  | [], [], first, h => rfl
  | [], e' :: items', first, h => h.elim
  | e :: items, [], first, h => h.elim
  | e :: items, e' :: items', first, h => by
    rw [writeItems, writeItems, writeJson_of_sameValue e e' h.1,
      writeItems_of_sameItems items items' false h.2]

theorem writeMembers_of_sameMembers : ∀ (members members' : List (Str × Json)) (first : Bool),
    SameMembers members members' → writeMembers first members = writeMembers first members'
  | [], [], first, h => rfl
  | [], p' :: members', first, h => h.elim
  | p :: members, [], first, h => h.elim
  | (k, v) :: members, (k', v') :: members', first, h => by
    rw [writeMembers, writeMembers, h.1, writeJson_of_sameValue v v' h.2.1,
      writeMembers_of_sameMembers members members' false h.2.2]

end

/-- The canonical text of a value without doubles determines it up to the tags of integers.
Escaping loses nothing, a string ends at its closing quote whatever follows, and a value
ends where its text does unless a digit follows. -/
theorem toCanonical_eq_iff :
    (∀ a b : Json, a.NoDoubles → b.NoDoubles → (a.toCanonical = b.toCanonical ↔ SameValue a b)) ∧
      Function.Injective escapeJson ∧ PrefixCode (fun _ => True) quoted ∧
      ∀ (a b : Json) (r r' : Str), a.NoDoubles → b.NoDoubles → Delimited r → Delimited r' →
        a.toCanonical ++ r = b.toCanonical ++ r' → SameValue a b ∧ r = r' := by
  refine ⟨fun a b ha hb => ⟨fun h => ?_, writeJson_of_sameValue a b⟩, escapeJson_injective,
    code_quoted, fun a b r r' ha hb hr hr' h => sameValue_of_append a b ha hb hr hr' h⟩
  have hend : Delimited [] := nofun
  exact (sameValue_of_append a b ha hb hend hend (congrArg (· ++ []) h)).1

end Reading

end Json
end ServingObservatory
