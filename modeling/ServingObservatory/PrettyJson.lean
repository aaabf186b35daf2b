import ServingObservatory.JsonReading

/-!
# The indented text of JSON values

The commands show values as indented text. Without the blanks outside of its strings it is the
canonical text, so that both texts tell the same values apart.
-/
namespace ServingObservatory
namespace Json

/-- `indent_in` at a depth. -/
def indentation (depth : ℕ) : Str := List.replicate ((depth + 1) * 2) 0x20

/-- The comma, the new line and the indentation before every element but the first. -/
def prettySeparator (depth : ℕ) (first : Bool) : Str :=
  if first then [] else lit "," ++ [0x0A] ++ indentation depth

section Writing
variable [Platform]

mutual

/-- `write_json` with `pretty`. -/
def writePretty (depth : ℕ) : Json → Str
  | null => lit "null"
  | bool b => if b then lit "true" else lit "false"
  | int v => lit (toString v.toInt)
  | uint v => decimal v.toNat
  | double d => writeDouble d
  | string s => quoted s
  | array items => lit "[" ++ writePrettyItems depth true items ++ lit "]"
  | object members => [0x7B] ++ writePrettyMembers depth true members ++ [0x7D]

def writePrettyItems (depth : ℕ) : Bool → List Json → Str
  | _, [] => []
  | first, e :: items =>
    prettySeparator depth first ++ writePretty (depth + 1) e ++ writePrettyItems depth false items

def writePrettyMembers (depth : ℕ) : Bool → List (Str × Json) → Str
  | _, [] => []
  | first, (k, v) :: members =>
    prettySeparator depth first ++ quoted k ++ lit ": " ++ writePretty (depth + 1) v ++
      writePrettyMembers depth false members

end

def toPretty (j : Json) : Str := writePretty 0 j

end Writing

/-- Where a byte of a text stands: outside of strings, in a string, or after a backslash. -/
inductive TextState
  | outside | inside | escaped

/-- The text without blanks and new lines outside of its strings. -/
def compact : TextState → Str → Str
  | _, [] => []
  | .outside, c :: t =>
    if c = 0x22 then c :: compact .inside t
    else if c = 0x20 ∨ c = 0x0A then compact .outside t
    else c :: compact .outside t
  | .inside, c :: t =>
    if c = 0x22 then c :: compact .outside t
    else if c = 0x5C then c :: compact .escaped t
    else c :: compact .inside t
  | .escaped, c :: t => c :: compact .inside t

/-- Neither quotes nor blanks. -/
def Plain (s : Str) : Prop := ∀ c ∈ s, c ≠ 0x22 ∧ c ≠ 0x20 ∧ c ≠ 0x0A

instance (s : Str) : Decidable (Plain s) := inferInstanceAs (Decidable (∀ c ∈ s, _))

def isScalar : Json → Bool
  | array _ | object _ => false
  | _ => true

section Compaction

theorem compact_plain {s : Str} (hs : Plain s) (t : Str) :
    compact .outside (s ++ t) = s ++ compact .outside t := by
  induction s with
  | nil => rfl
  | cons c s ih =>
    obtain ⟨⟨hquote, hblank, hline⟩, hs⟩ := List.forall_mem_cons.mp hs
    rw [List.cons_append, compact, if_neg hquote, if_neg (not_or.mpr ⟨hblank, hline⟩), ih hs,
      List.cons_append]

theorem compact_blanks (n : ℕ) (t : Str) :
    compact .outside (List.replicate n 0x20 ++ t) = compact .outside t := by
  induction n with
  | zero => rfl
  | succ n ih =>
    rw [List.replicate_succ, List.cons_append, compact, if_neg (by decide), if_pos (.inl rfl), ih]

/-- A byte of a string that is no quote and no backslash. -/
theorem compact_inside {c : UInt8} (hquote : c ≠ 0x22) (hslash : c ≠ 0x5C) (t : Str) :
    compact .inside (c :: t) = c :: compact .inside t := by
  rw [compact, if_neg hquote, if_neg hslash]

/-- The digits of control characters are neither quotes nor backslashes. -/
theorem kHex_getD_ne (n : ℕ) : Id128.kHex.getD n 0 ≠ 0x22 ∧ Id128.kHex.getD n 0 ≠ 0x5C := by
  by_cases hn : n < 16
  · revert n
    decide
  · rw [List.getD_eq_getElem?_getD, List.getElem?_eq_none (Nat.le_of_not_lt hn)]
    decide

theorem compact_escapeByte (c : UInt8) (t : Str) :
    compact .inside (escapeByte c ++ t) = escapeByte c ++ compact .inside t := by
  unfold escapeByte
  split_ifs with h₁ h₂ h₃ h₄ h₅ h₆ h₇ h₈
  · rfl
  · rfl
  · rfl
  · rfl
  · rfl
  · rfl
  · rfl
  · obtain ⟨hh, hh'⟩ := kHex_getD_ne (c >>> 4).toNat
    obtain ⟨hl, hl'⟩ := kHex_getD_ne (c &&& 0xF).toNat
    change 0x5C :: 0x75 :: 0x30 :: 0x30 :: compact .inside (_ :: _ :: t) = _
    rw [compact_inside hh hh', compact_inside hl hl']
    rfl
  · exact compact_inside h₁ h₂ t

theorem compact_escapeJson (s t : Str) : compact .inside (escapeJson s ++ 0x22 :: t) =
    escapeJson s ++ 0x22 :: compact .outside t := by
  induction s with
  | nil => rfl
  | cons c s ih =>
    rw [escapeJson, List.flatMap_cons, List.append_assoc, compact_escapeByte, List.append_assoc]
    exact congrArg (escapeByte c ++ ·) ih

theorem compact_quoted (s t : Str) :
    compact .outside (quoted s ++ t) = quoted s ++ compact .outside t := by
  simp only [quoted, List.append_assoc, List.cons_append, List.nil_append]
  rw [compact, if_pos rfl, compact_escapeJson]

theorem compact_prettySeparator (depth : ℕ) (first : Bool) (t : Str) :
    compact .outside (prettySeparator depth first ++ t) = separator first ++ compact .outside t := by
  cases first with
  | true => rfl
  | false =>
    rw [prettySeparator, indentation]
    exact congrArg (0x2C :: ·) (compact_blanks _ t)

theorem plain_numeral (z : ℤ) : Plain (numeral z) := by
  have hdigits : ∀ n : ℕ, Plain (decimal n) := fun n c hc => by
    have hdigit := isDigit_of_mem_decimal hc
    exact ⟨hdigit.ne (by decide), hdigit.ne (by decide), hdigit.ne (by decide)⟩
  cases z with
  | ofNat n => exact hdigits n
  | negSucc n =>
    rw [numeral_negSucc]
    exact List.forall_mem_cons.mpr ⟨by decide, hdigits (n + 1)⟩

section Printing
variable [Platform]

theorem plain_writeDouble (hprint : ∀ d, Plain (Platform.print d)) (d : F64) :
    Plain (writeDouble d) := by
  unfold writeDouble
  dsimp only
  split_ifs
  · decide +kernel
  · decide +kernel
  · exact hprint d

mutual

theorem compact_writePretty (hprint : ∀ d, Plain (Platform.print d)) :
    ∀ (j : Json) (depth : ℕ) (t : Str), compact .outside (writePretty depth j ++ t) =
      writeJson j ++ compact .outside t
  | null, depth, t => compact_plain (s := lit "null") (by decide +kernel) t
  | bool true, depth, t => compact_plain (s := lit "true") (by decide +kernel) t
  | bool false, depth, t => compact_plain (s := lit "false") (by decide +kernel) t
  | int v, depth, t => compact_plain (plain_numeral v.toInt) t
  | uint v, depth, t => compact_plain (plain_numeral v.toNat) t
  | double d, depth, t => compact_plain (plain_writeDouble hprint d) t
  | string s, depth, t => compact_quoted s t
  | array items, depth, t => by
    rw [writePretty, writeJson, List.append_assoc, List.append_assoc, List.append_assoc]
    exact congrArg (0x5B :: ·) (compact_writePrettyItems hprint items depth true (0x5D :: t))
  | object members, depth, t => by
    rw [writePretty, writeJson, List.append_assoc, List.append_assoc, List.append_assoc]
    exact congrArg (0x7B :: ·) (compact_writePrettyMembers hprint members depth true (0x7D :: t))

theorem compact_writePrettyItems (hprint : ∀ d, Plain (Platform.print d)) :
    ∀ (items : List Json) (depth : ℕ) (first : Bool) (t : Str), compact .outside
      (writePrettyItems depth first items ++ t) = writeItems first items ++ compact .outside t
  | [], depth, first, t => rfl
  | e :: items, depth, first, t => by
    simp only [writePrettyItems, writeItems, List.append_assoc]
    rw [compact_prettySeparator, compact_writePretty hprint e,
      compact_writePrettyItems hprint items]

theorem compact_writePrettyMembers (hprint : ∀ d, Plain (Platform.print d)) :
    ∀ (members : List (Str × Json)) (depth : ℕ) (first : Bool) (t : Str), compact .outside
      (writePrettyMembers depth first members ++ t) = writeMembers first members ++ compact .outside t
  | [], depth, first, t => rfl
  | (k, v) :: members, depth, first, t => by
    have hcolon : ∀ t, compact .outside (lit ": " ++ t) = lit ":" ++ compact .outside t :=
      fun t => rfl
    simp only [writePrettyMembers, writeMembers, List.append_assoc]
    rw [compact_prettySeparator, compact_quoted, hcolon, compact_writePretty hprint v,
      compact_writePrettyMembers hprint members]

end

end Printing

section Determination
variable [Platform]

theorem writePretty_of_isScalar {j : Json} (h : j.isScalar = true) (depth : ℕ) :
    writePretty depth j = writeJson j := by
  cases j with
  | array items => cases h
  | object members => cases h
  | _ => rfl

omit [Platform] in
theorem isScalar_of_sameValue {a b : Json} (ha : a.isScalar = true) (h : SameValue a b) :
    b.isScalar = true := by
  cases a <;> cases b <;> simp_all [isScalar, SameValue, number?]

theorem writePretty_of_sameScalar {a b : Json} (ha : a.isScalar = true) (depth : ℕ)
    (h : SameValue a b) : writePretty depth a = writePretty depth b := by
  rw [writePretty_of_isScalar ha, writePretty_of_isScalar (isScalar_of_sameValue ha h),
    writeJson_of_sameValue a b h]

mutual

theorem writePretty_of_sameValue : ∀ (a b : Json) (depth : ℕ), SameValue a b →
    writePretty depth a = writePretty depth b
  | array items, b, depth, h => by
    cases b with
    | array items' =>
      rw [writePretty, writePretty, writePrettyItems_of_sameItems items items' depth true h]
    | _ => obtain ⟨z, hz, -⟩ := h; cases hz
  | object members, b, depth, h => by
    cases b with
    | object members' =>
      rw [writePretty, writePretty, writePrettyMembers_of_sameMembers members members' depth true h]
    | _ => obtain ⟨z, hz, -⟩ := h; cases hz
  | null, b, depth, h | bool _, b, depth, h | int _, b, depth, h | uint _, b, depth, h
  | double _, b, depth, h | string _, b, depth, h => writePretty_of_sameScalar rfl depth h

theorem writePrettyItems_of_sameItems : ∀ (items items' : List Json) (depth : ℕ) (first : Bool),
    SameItems items items' → writePrettyItems depth first items = writePrettyItems depth first items'
  | [], [], depth, first, h => rfl
  | [], e' :: items', depth, first, h => h.elim
  | e :: items, [], depth, first, h => h.elim
  | e :: items, e' :: items', depth, first, h => by
    rw [writePrettyItems, writePrettyItems, writePretty_of_sameValue e e' (depth + 1) h.1,
      writePrettyItems_of_sameItems items items' depth false h.2]

theorem writePrettyMembers_of_sameMembers : ∀ (members members' : List (Str × Json)) (depth : ℕ)
    (first : Bool), SameMembers members members' →
      writePrettyMembers depth first members = writePrettyMembers depth first members'
  | [], [], depth, first, h => rfl
  | [], p' :: members', depth, first, h => h.elim
  | p :: members, [], depth, first, h => h.elim
  | (k, v) :: members, (k', v') :: members', depth, first, h => by
    rw [writePrettyMembers, writePrettyMembers, h.1,
      writePretty_of_sameValue v v' (depth + 1) h.2.1,
      writePrettyMembers_of_sameMembers members members' depth false h.2.2]

end

/-- Where the C library prints doubles without quotes and blanks: the indented text of a value is
its canonical text with blanks and new lines added outside of the strings, and values without
doubles have one indented text exactly when they have one canonical text. -/
theorem pretty_is_canonical_with_blanks (hprint : ∀ d, Plain (Platform.print d)) :
    (∀ j : Json, compact .outside j.toPretty = j.toCanonical) ∧
      ∀ a b : Json, a.NoDoubles → b.NoDoubles →
        (a.toPretty = b.toPretty ↔ a.toCanonical = b.toCanonical) := by
  have hcompact : ∀ j : Json, compact .outside j.toPretty = j.toCanonical := fun j => by
    have h := compact_writePretty hprint j 0 []
    rwa [List.append_nil, compact, List.append_nil] at h
  refine ⟨hcompact, fun a b ha hb => ⟨fun h => ?_, fun h => ?_⟩⟩
  · rw [← hcompact, ← hcompact, h]
  · have hend : Delimited [] := nofun
    exact writePretty_of_sameValue a b 0
      (sameValue_of_append a b ha hb hend hend (congrArg (· ++ []) h)).1

end Determination

/-- A value with a string that holds blanks, and with a half. -/
def quotedBlanks : Json :=
  object [(lit "a b", array [string (lit " \" "), double F64.half]), (lit "c", array [])]

theorem pretty_is_canonical_with_blanks_quoted :
    let _ : Platform := { Platform.machine with print := fun _ => lit "0.5" }
    quotedBlanks.toPretty ≠ quotedBlanks.toCanonical ∧
      compact .outside quotedBlanks.toPretty = quotedBlanks.toCanonical := by
  intro P
  refine ⟨?_, (pretty_is_canonical_with_blanks fun d => ?_).1 quotedBlanks⟩
  · decide +kernel
  · change Plain (lit "0.5")
    decide +kernel

end Compaction

end Json
end ServingObservatory
