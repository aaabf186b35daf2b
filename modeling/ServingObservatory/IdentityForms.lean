import ServingObservatory.BinaryLanguage
import ServingObservatory.IdentityText
import ServingObservatory.Numerals

/-!
# The forms of an identity

The writer slices the two words into bytes and the bytes into digits, and the parser and the
reader shift them in again. Both halves are the digits of a word in base sixteen, so that
exactly the texts of 32 digits are read, each as the identity that it spells.
-/
namespace ServingObservatory
open Numerals

/-- What is left between the blanks at both ends. -/
structure Trimmed (s t : Str) : Prop where
  cut : ∃ l r, s = l ++ t ++ r ∧ (∀ c ∈ l, isBlank c = true) ∧ ∀ c ∈ r, isBlank c = true
  first : ∀ c ∈ t.head?, isBlank c = false
  last : ∀ c ∈ t.getLast?, isBlank c = false

theorem dropWhile_blanks {l t : Str} (hl : ∀ c ∈ l, isBlank c = true)
    (ht : ∀ c ∈ t.head?, isBlank c = false) : (l ++ t).dropWhile isBlank = t := by
  rw [List.dropWhile_append_of_pos hl]
  cases t with
  | nil => rfl
  | cons c t => rw [List.dropWhile_cons_of_neg (by simp [ht c rfl])]

theorem Trimmed.eq_trim {s t : Str} (h : Trimmed s t) : t = trim s := by
  obtain ⟨⟨l, r, rfl, hl, hr⟩, hfirst, hlast⟩ := h
  cases t with
  | nil =>
    have hall : ∀ c ∈ l ++ [] ++ r, isBlank c = true := by
      simpa [or_imp, forall_and] using ⟨hl, hr⟩
    rw [trim, List.dropWhile_eq_nil_iff.mpr hall]
    rfl
  | cons c t =>
    have hend : ∀ d ∈ (c :: t).reverse.head?, isBlank d = false := by
      rwa [List.head?_reverse]
    have hr' : ∀ d ∈ r.reverse, isBlank d = true := by simpa using hr
    have hstart : ∀ d ∈ (c :: t ++ r).head?, isBlank d = false := hfirst
    -- seen from the end, the blanks behind the text are blanks before it
    rw [trim, List.append_assoc, dropWhile_blanks hl hstart, List.rdropWhile,
      List.reverse_append, dropWhile_blanks hr' hend, List.reverse_reverse]

theorem trimmed_trim (s : Str) : Trimmed s (trim s) where
  cut := by
    have hcut := List.takeWhile_append_dropWhile (p := isBlank) (l := s)
    have hend := List.rdropWhile_append_rtakeWhile (p := isBlank) (l := s.dropWhile isBlank)
    refine ⟨s.takeWhile isBlank, (s.dropWhile isBlank).rtakeWhile isBlank, ?_, ?_, ?_⟩
    · rw [List.append_assoc, trim, hend, hcut]
    · exact fun c hc => List.mem_takeWhile_imp hc
    · exact fun c hc => List.mem_rtakeWhile_imp hc
  first c hc := by
    obtain ⟨r, hr⟩ := List.rdropWhile_prefix isBlank (s.dropWhile isBlank)
    have hhead : (s.dropWhile isBlank).head? = some c := by
      rw [← hr, List.head?_append, ← trim, hc]
      rfl
    have hnot := List.head?_dropWhile_not isBlank s
    simpa [hhead] using hnot
  last c hc := by
    have hne : trim s ≠ [] := fun h => by simp [h] at hc
    have hnot := List.rdropWhile_last_not isBlank (s.dropWhile isBlank) hne
    rw [List.getLast?_eq_some_getLast hne] at hc
    rw [← Option.some.inj hc]
    exact Bool.eq_false_iff.mpr hnot

theorem trimmed_iff {s t : Str} : Trimmed s t ↔ t = trim s :=
  ⟨Trimmed.eq_trim, fun h => h ▸ trimmed_trim s⟩

def IsHexDigit (c : UInt8) : Prop :=
  (0x30 ≤ c ∧ c ≤ 0x39) ∨ (0x61 ≤ c ∧ c ≤ 0x66) ∨ (0x41 ≤ c ∧ c ≤ 0x46)

instance (c : UInt8) : Decidable (IsHexDigit c) := inferInstanceAs (Decidable (_ ∨ _))

def toLower (c : UInt8) : UInt8 := if 0x41 ≤ c ∧ c ≤ 0x5A then c + 0x20 else c

theorem toLower_of_lt {c : UInt8} (h : c < 0x41) : toLower c = c :=
  if_neg fun hc => UInt8.lt_irrefl c (UInt8.lt_of_lt_of_le h hc.1)

theorem toLower_of_gt {c : UInt8} (h : 0x5A < c) : toLower c = c :=
  if_neg fun hc => UInt8.lt_irrefl _ (UInt8.lt_of_lt_of_le h hc.2)

namespace Id128

/-- What is between the separators, behind the prefix. -/
def digitsOf (t : Str) : Str := (dropHexPrefix t).filter fun c => !isSeparator c

section Digits

theorem map_cons_eq_ok_iff {r : Except Str Str} {p : Prop} {l : Str}
    (h : ∀ d, r = .ok d ↔ p ∧ d = l) (e : UInt8) (d : Str) :
    r.map (e :: ·) = .ok d ↔ p ∧ d = e :: l := by
  rw [Decoding.map_eq_ok]
  simp only [h]
  constructor
  · rintro ⟨_, ⟨hp, rfl⟩, rfl⟩
    exact ⟨hp, rfl⟩
  · rintro ⟨hp, rfl⟩
    exact ⟨l, ⟨hp, rfl⟩, rfl⟩

/-- The characters are kept, with letters in lower case. -/
theorem clean_eq_ok_iff (t d : Str) : clean t = .ok d ↔
    (∀ c ∈ t.filter fun c => !isSeparator c, IsHexDigit c) ∧
      d = (t.filter fun c => !isSeparator c).map toLower := by
  induction t generalizing d with
  | nil => simp [clean, eq_comm]
  | cons c t ih =>
    rw [clean]
    by_cases hsep : isSeparator c = true
    · rw [if_pos hsep, ih, List.filter_cons_of_neg (by simp [hsep])]
    · have hfilter : ((c :: t).filter fun c => !isSeparator c) =
          c :: t.filter fun c => !isSeparator c := List.filter_cons_of_pos (by simp [hsep])
      rw [if_neg hsep, hfilter, List.forall_mem_cons, List.map_cons]
      simp only [Bool.and_eq_true, decide_eq_true_eq]
      split_ifs with hdecimal hlower hupper
      · have hc : IsHexDigit c := .inl hdecimal
        rw [map_cons_eq_ok_iff ih, toLower_of_lt (UInt8.lt_of_le_of_lt hdecimal.2 (by decide)),
          and_iff_right hc]
      · have hc : IsHexDigit c := .inr (.inl hlower)
        rw [map_cons_eq_ok_iff ih, toLower_of_gt (UInt8.lt_of_lt_of_le (by decide) hlower.1),
          and_iff_right hc]
      · have hc : IsHexDigit c := .inr (.inr hupper)
        have hfold : c - 0x41 + 0x61 = toLower c := by
          rw [toLower, if_pos ⟨hupper.1, UInt8.le_trans hupper.2 (by decide)⟩, UInt8.sub_eq_add_neg,
            UInt8.add_assoc]
          rfl
        rw [map_cons_eq_ok_iff ih, hfold, and_iff_right hc]
      · have hc : ¬ IsHexDigit c := by
          rintro (h | h | h)
          exacts [hdecimal h, hlower h, hupper h]
        simp [hc]

def hexDigit (d : ℕ) : UInt8 := kHex.getD d 0

theorem nibble_hexDigit {d : ℕ} (hd : d < 16) : (nibble (hexDigit d)).toNat = d := by
  have hall : ∀ d < 16, (nibble (hexDigit d)).toNat = d := by decide
  exact hall d hd

theorem hexDigit_nibble {c : UInt8} (hc : c ∈ kHex) : hexDigit (nibble c).toNat = c := by
  have hall : (kHex.all fun c => hexDigit (nibble c).toNat == c) = true := by decide
  simpa using List.all_eq_true.mp hall c hc

theorem hexDigit_mem {d : ℕ} (hd : d < 16) : hexDigit d ∈ kHex := by
  have hall : ∀ d < 16, kHex.contains (hexDigit d) = true := by decide
  simpa using hall d hd

/-- One round of the loop of `parse`. -/
theorem toNat_shiftNibble (w : UInt64) {n : UInt8} (hn : n.toNat < 16) :
    ((w <<< 4) ||| n.toUInt64).toNat = (w.toNat * 16 + n.toNat) % 2 ^ 64 := by
  have hn : n.toNat < 2 ^ 4 := hn
  have hshift : (4 : UInt64).toNat % 64 = 4 := rfl
  rw [UInt64.toNat_or, UInt64.toNat_shiftLeft, UInt8.toNat_toUInt64, hshift]
  conv_lhs => rw [← Nat.mod_eq_of_lt (show n.toNat < 2 ^ 64 by omega)]
  rw [← Nat.or_mod_two_pow, Nat.shiftLeft_eq, Nat.mul_comm, ← Nat.two_pow_add_eq_or_of_lt hn,
    Nat.mul_comm]

theorem nibble_lt {c : UInt8} (hc : c ∈ kHex) : (nibble c).toNat < 16 := by
  have hall : (kHex.all fun c => decide ((nibble c).toNat < 16)) = true := by decide
  simpa using List.all_eq_true.mp hall c hc

theorem toNat_word {ds : Str} (h : ∀ c ∈ ds, c ∈ kHex) :
    (word ds).toNat = value 16 (ds.map fun c => (nibble c).toNat) % 2 ^ 64 := by
  have hfold : ∀ w : UInt64,
      (ds.foldl (fun (w : UInt64) c => (w <<< 4) ||| (nibble c).toUInt64) w).toNat =
        (w.toNat * 16 ^ ds.length + value 16 (ds.map fun c => (nibble c).toNat)) % 2 ^ 64 := by
    induction ds with
    | nil => simp [value, Nat.mod_eq_of_lt (UInt64.toNat_lt _)]
    | cons c ds ih =>
      intro w
      obtain ⟨hc, hds⟩ := List.forall_mem_cons.mp h
      rw [List.foldl_cons, ih hds, toNat_shiftNibble w (nibble_lt hc), Nat.add_mod,
        Nat.mod_mul_mod, ← Nat.add_mod, List.map_cons, value_cons, List.length_map,
        List.length_cons]
      ring_nf
  simpa [word] using hfold 0

/-- A word in hexadecimal. -/
def hexWord (w : UInt64) : Str := (digits 16 16 w.toNat).map hexDigit

@[simp] theorem length_hexWord (w : UInt64) : (hexWord w).length = 16 := by simp [hexWord]

theorem mem_hexWord {w : UInt64} {c : UInt8} (hc : c ∈ hexWord w) : c ∈ kHex := by
  obtain ⟨d, hd, rfl⟩ := List.mem_map.mp hc
  exact hexDigit_mem (lt_of_mem_digits (by norm_num) hd)

/-- The two characters of a byte. -/
def hexPair (b : UInt8) : Str := [kHex.getD (b >>> 4).toNat 0, kHex.getD (b &&& 0xF).toNat 0]

theorem hexPair_eq (b : UInt8) :
    hexPair b = [hexDigit (b.toNat / 16), hexDigit (b.toNat % 16)] := by
  have hhigh : (b >>> 4).toNat = b.toNat / 16 := by
    rw [UInt8.toNat_shiftRight, Nat.shiftRight_eq_div_pow]
    rfl
  have hlow : (b &&& 0xF).toNat = b.toNat % 16 := by
    rw [UInt8.toNat_and]
    exact Nat.and_two_pow_sub_one_eq_mod b.toNat 4
  rw [hexPair, hhigh, hlow]
  rfl

/-- The byte of a word that is shifted down by `8 * k` bits. -/
theorem toNat_byte (w : UInt64) {k : ℕ} (hk : k < 8) :
    ((w >>> UInt64.ofNat (k * 8)) &&& 0xFF).toUInt8.toNat = w.toNat / 16 ^ (2 * k) % 256 := by
  have hsmall : k * 8 < 2 ^ 64 := by omega
  have hshift : (UInt64.ofNat (k * 8)).toNat % 64 = 4 * (2 * k) := by
    rw [UInt64.toNat_ofNat_of_lt' hsmall]
    omega
  have hpow : (2 : ℕ) ^ (4 * (2 * k)) = 16 ^ (2 * k) := pow_mul 2 4 _
  have hmask := Nat.and_two_pow_sub_one_eq_mod (w.toNat / 16 ^ (2 * k)) 8
  have hff : (0xFF : UInt64).toNat = 2 ^ 8 - 1 := rfl
  rw [UInt64.toNat_toUInt8, UInt64.toNat_and, UInt64.toNat_shiftRight, hshift,
    Nat.shiftRight_eq_div_pow, hpow, hff, hmask]
  omega

/-- The characters of the byte that is shifted down by `8 * k` bits. -/
theorem hexPair_byte (w : UInt64) {k : ℕ} (hk : k < 8) :
    hexPair ((w >>> UInt64.ofNat (k * 8)) &&& 0xFF).toUInt8 =
      [hexDigit (w.toNat / 16 ^ (2 * k + 1) % 16), hexDigit (w.toNat / 16 ^ (2 * k) % 16)] := by
  rw [hexPair_eq, toNat_byte w hk, pow_succ, ← Nat.div_div_eq_div_mul]
  generalize w.toNat / 16 ^ (2 * k) = v
  have hhigh : v % 256 / 16 = v / 16 % 16 := by omega
  have hlow : v % 256 % 16 = v % 16 := by omega
  rw [hhigh, hlow]

theorem toHex_eq (v : Id128) : v.toHex = hexWord v.hi ++ hexWord v.lo := by
  have hpairs : ∀ w : UInt64, hexWord w = (List.range 8).flatMap fun i =>
      [hexDigit (w.toNat / 16 ^ (2 * (7 - i) + 1) % 16),
        hexDigit (w.toNat / 16 ^ (2 * (7 - i)) % 16)] := fun _ => rfl
  have hrange : List.range 16 = List.range 8 ++ (List.range 8).map (8 + ·) := rfl
  rw [toHex, hrange, List.flatMap_append, List.flatMap_map, hpairs, hpairs]
  refine congrArg₂ _ (List.flatMap_congr fun i hi => ?_) (List.flatMap_congr fun i hi => ?_)
  · have hi := List.mem_range.mp hi
    simp only [if_pos hi]
    exact hexPair_byte v.hi (by omega)
  · have hi := List.mem_range.mp hi
    have hnot : ¬ 8 + i < 8 := by omega
    have hindex : 15 - (8 + i) = 7 - i := by omega
    simp only [if_neg hnot, hindex]
    exact hexPair_byte v.lo (by omega)

end Digits

/-- A word and its text determine each other. -/
theorem hexWord_eq_iff {d : Str} (hlen : d.length = 16) (hd : ∀ c ∈ d, c ∈ kHex) (w : UInt64) :
    hexWord w = d ↔ w = word d := by
  have hpow : (2 : ℕ) ^ 64 = 16 ^ 16 := by norm_num
  constructor
  · rintro rfl
    have hread : ((hexWord w).map fun c => (nibble c).toNat) = digits 16 16 w.toNat := by
      rw [hexWord, List.map_map]
      refine (List.map_congr_left fun d hd => ?_).trans (List.map_id _)
      exact nibble_hexDigit (lt_of_mem_digits (by norm_num) hd)
    have hlt : w.toNat < 16 ^ 16 := hpow ▸ w.toNat_lt
    refine UInt64.toNat_inj.mp ?_
    rw [toNat_word hd, hread, value_digits, hpow, Nat.mod_mod, Nat.mod_eq_of_lt hlt]
  · rintro rfl
    have hlen' : (d.map fun c => (nibble c).toNat).length = 16 := by rw [List.length_map, hlen]
    have hsmall : ∀ n ∈ d.map fun c => (nibble c).toNat, n < 16 := by
      rintro n hn
      obtain ⟨c, hc, rfl⟩ := List.mem_map.mp hn
      exact nibble_lt (hd c hc)
    have hlt := value_lt hsmall
    have hdigits := digits_value hsmall
    rw [hlen'] at hlt hdigits
    rw [hexWord, toNat_word hd, hpow, Nat.mod_eq_of_lt hlt, hdigits, List.map_map]
    refine (List.map_congr_left fun c hc => ?_).trans (List.map_id _)
    exact hexDigit_nibble (hd c hc)

/-- An identity and its text determine each other. -/
theorem toHex_eq_iff {d : Str} (hlen : d.length = 32) (hd : ∀ c ∈ d, c ∈ kHex) (v : Id128) :
    v.toHex = d ↔ v = ⟨word (d.take 16), word (d.drop 16)⟩ := by
  have htake : ∀ c ∈ d.take 16, c ∈ kHex := fun c hc => hd c (List.mem_of_mem_take hc)
  have hdrop : ∀ c ∈ d.drop 16, c ∈ kHex := fun c hc => hd c (List.mem_of_mem_drop hc)
  have hhalf : (d.take 16).length = 16 := by rw [List.length_take, hlen]; rfl
  have hrest : (d.drop 16).length = 16 := by rw [List.length_drop, hlen]
  have hsplit : v.toHex = d ↔ hexWord v.hi = d.take 16 ∧ hexWord v.lo = d.drop 16 := by
    rw [toHex_eq]
    constructor
    · rintro rfl
      exact ⟨(List.take_left' (length_hexWord _)).symm, (List.drop_left' (length_hexWord _)).symm⟩
    · rintro ⟨hhi, hlo⟩
      rw [hhi, hlo, List.take_append_drop]
  rw [hsplit, hexWord_eq_iff hhalf htake, hexWord_eq_iff hrest hdrop, Id128.mk.injEq]

theorem mem_kHex_toLower {c : UInt8} (hc : IsHexDigit c) : toLower c ∈ kHex := by
  have hall : ∀ n < 256, IsHexDigit (UInt8.ofNat n) →
      kHex.contains (toLower (UInt8.ofNat n)) = true := by decide +kernel
  have hmem := hall c.toNat c.toNat_lt
  rw [UInt8.ofNat_toNat] at hmem
  simpa using hmem hc

/-- Exactly 32 hexadecimal digits. -/
def Spells (d : Str) : Prop := d.length = 32 ∧ ∀ c ∈ d, IsHexDigit c

/-- The identity that digits in either case spell. -/
def ofDigits (d : Str) : Id128 :=
  ⟨word ((d.map toLower).take 16), word ((d.map toLower).drop 16)⟩

theorem toHex_eq_toLower_iff {d : Str} (h : Spells d) (v : Id128) :
    v.toHex = d.map toLower ↔ v = ofDigits d := by
  refine toHex_eq_iff (by rw [List.length_map, h.1]) (fun e he => ?_) v
  obtain ⟨c, hc, rfl⟩ := List.mem_map.mp he
  exact mem_kHex_toLower (h.2 c hc)

/-- The parser accepts the texts that spell an identity, and returns it. -/
theorem parse_eq_ok_iff (s : Str) (v : Id128) :
    parse s = .ok v ↔ Spells (digitsOf (trim s)) ∧ v = ofDigits (digitsOf (trim s)) := by
  rw [parse, Decoding.bind_eq_ok]
  simp only [clean_eq_ok_iff]
  rw [← digitsOf]
  constructor
  · rintro ⟨d, ⟨hd, rfl⟩, hrest⟩
    rw [List.length_map] at hrest
    by_cases hlen : (digitsOf (trim s)).length = 32
    · rw [if_neg (by simp [hlen])] at hrest
      exact ⟨⟨hlen, hd⟩, (Except.ok.inj hrest).symm⟩
    · rw [if_pos (by simpa using hlen)] at hrest
      cases hrest
  · rintro ⟨⟨hlen, hd⟩, rfl⟩
    refine ⟨_, ⟨hd, rfl⟩, ?_⟩
    rw [List.length_map, if_neg (by simp [hlen])]
    rfl

/-- No character of a text is skipped or changed. -/
structure Plain (c : UInt8) : Prop where
  not_blank : isBlank c = false
  not_separator : isSeparator c = false
  not_x : c ≠ 0x78 ∧ c ≠ 0x58
  isHexDigit : IsHexDigit c
  toLower : toLower c = c

theorem plain_of_mem_kHex {c : UInt8} (hc : c ∈ kHex) : Plain c := by
  have hall : (kHex.all fun c => !isBlank c && !isSeparator c && c != 0x78 && c != 0x58 &&
      decide (IsHexDigit c) && ServingObservatory.toLower c == c) = true := by decide
  have hthis := List.all_eq_true.mp hall c hc
  simp only [Bool.and_eq_true, Bool.not_eq_true', bne_iff_ne, beq_iff_eq,
    decide_eq_true_eq] at hthis
  obtain ⟨⟨⟨⟨⟨hblank, hsep⟩, hx⟩, hX⟩, hdigit⟩, hlower⟩ := hthis
  exact ⟨hblank, hsep, ⟨hx, hX⟩, hdigit, hlower⟩

theorem dropHexPrefix_of_plain {d : Str} (hd : ∀ c ∈ d, Plain c) : dropHexPrefix d = d := by
  unfold dropHexPrefix
  split
  · rename_i x t
    have hx := (hd x (by simp)).not_x
    simp [hx.1, hx.2]
  · rfl

theorem digitsOf_of_plain {d : Str} (hd : ∀ c ∈ d, Plain c) : digitsOf (trim d) = d := by
  have hends : Trimmed d d :=
    ⟨⟨[], [], by simp, nofun, nofun⟩, fun c hc => (hd c (List.mem_of_mem_head? hc)).not_blank,
      fun c hc => (hd c (List.mem_of_getLast? hc)).not_blank⟩
  rw [← trimmed_iff.mp hends, digitsOf, dropHexPrefix_of_plain hd, List.filter_eq_self]
  exact fun c hc => by simp [(hd c hc).not_separator]

/-- The text of an identity is parsed as itself. -/
theorem parse_toHex (v : Id128) : parse v.toHex = .ok v := by
  have hplain : ∀ c ∈ v.toHex, Plain c := by
    rw [toHex_eq]
    exact fun c hc => plain_of_mem_kHex ((List.mem_append.mp hc).elim mem_hexWord mem_hexWord)
  have hspells : Spells v.toHex := ⟨by simp [toHex_eq], fun c hc => (hplain c hc).isHexDigit⟩
  have hlower : v.toHex.map toLower = v.toHex :=
    (List.map_congr_left fun c hc => (hplain c hc).toLower).trans (List.map_id _)
  refine (parse_eq_ok_iff _ v).mpr ?_
  rw [digitsOf_of_plain hplain]
  exact ⟨hspells, (toHex_eq_toLower_iff hspells v).mp hlower.symm⟩

/-- The bytes of an identity are read as itself, whatever stands around them. -/
theorem read_write (v : Id128) (buf rest : Bytes) :
    ∃ out r, (BinaryWriter.writeId v).run buf = .ok ((), buf ++ out) ∧
      BinaryReader.readId.run { unread := out ++ rest } = (v, r) ∧
      r.failed = false ∧ r.unread = rest := by
  obtain ⟨r, hrun, hok, hunread⟩ := BinaryReader.reads_id.complete
    (s := { unread := v.toBytes ++ rest }) rfl ⟨v, trivial, rfl, rfl⟩ rfl
  exact ⟨v.toBytes, r, rfl, hrun, hok, hunread⟩

/-- An identity is read back from its text and from its bytes. A text is accepted just when 32
hexadecimal digits are left of it, and they are then the text of the result, in lower case. -/
theorem forms_exact (v : Id128) (s : Str) :
    parse v.toHex = .ok v ∧
      (∀ buf rest, ∃ out r, (BinaryWriter.writeId v).run buf = .ok ((), buf ++ out) ∧
        BinaryReader.readId.run { unread := out ++ rest } = (v, r) ∧
        r.failed = false ∧ r.unread = rest) ∧
      ∀ t, Trimmed s t → ((∃ w, parse s = .ok w) ↔ Spells (digitsOf t)) ∧
        ∀ w, parse s = .ok w ↔ Spells (digitsOf t) ∧ w.toHex = (digitsOf t).map toLower := by
  refine ⟨parse_toHex v, read_write v, fun t ht => ?_⟩
  obtain rfl := trimmed_iff.mp ht
  simp only [parse_eq_ok_iff, exists_and_left, exists_eq, and_true, true_and]
  exact fun w => and_congr_right fun h => (toHex_eq_toLower_iff h w).symm

end Id128
end ServingObservatory
