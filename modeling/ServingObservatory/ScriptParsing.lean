import ServingObservatory.OrderedMap
import ServingObservatory.ScriptFields

/-!
# Scripts

A script is read line by line. Blank lines, comments and lines that begin with another word are
passed over. What is read from any text is written in one form, and that form is read as what it
was written for.
-/
namespace ServingObservatory
open Std

/-- The types under the names of their constants. -/
def ObsType.codes : List (Str × ObsType) :=
  [(lit "REQUEST", .request), (lit "ADMISSION", .admission), (lit "QUEUE_ENTER", .queueEnter),
    (lit "QUEUE_LEAVE", .queueLeave), (lit "BATCH_FORM", .batchForm),
    (lit "BATCH_SEAL", .batchSeal), (lit "BATCH_SPLIT", .batchSplit),
    (lit "BATCH_MERGE", .batchMerge), (lit "DISPATCH", .dispatch),
    (lit "PREFILL_START", .prefillStart), (lit "PREFILL_END", .prefillEnd),
    (lit "DECODE_STEP_START", .decodeStepStart), (lit "DECODE_STEP_END", .decodeStepEnd),
    (lit "SPECULATION_START", .speculationStart), (lit "SPECULATION_VERIFY", .speculationVerify),
    (lit "KV_LOOKUP", .kvLookup), (lit "KV_HIT", .kvHit), (lit "KV_MISS", .kvMiss),
    (lit "KV_GROWTH", .kvGrowth), (lit "MODEL_RESIDENCY", .modelResidency),
    (lit "ADAPTER_RESIDENCY", .adapterResidency), (lit "KERNEL_LOOKUP", .kernelLookup),
    (lit "KERNEL_HIT", .kernelHit), (lit "KERNEL_MISS", .kernelMiss),
    (lit "GRAPH_LOOKUP", .graphLookup), (lit "GRAPH_HIT", .graphHit),
    (lit "GRAPH_MISS", .graphMiss), (lit "ALLOCATION", .allocation), (lit "FREE", .free),
    (lit "TRANSFER_START", .transferStart), (lit "TRANSFER_END", .transferEnd),
    (lit "RETRY", .retry), (lit "CANCEL", .cancel), (lit "FAILURE", .failure),
    (lit "WORKER_DOWN", .workerDown), (lit "WORKER_RESTART", .workerRestart),
    (lit "RECOVERY", .recovery), (lit "COMPLETION", .completion), (lit "SLO_STATE", .sloState),
    (lit "QUOTA_STATE", .quotaState), (lit "CAPACITY_STATE", .capacityState)]

/-- `obs_type_from_code`: the constant of that name. -/
def ObsType.fromCode (code : Str) : ObsType :=
  ((ObsType.codes.find? (·.1 == code)).map Prod.snd).getD .unknown

/-- The lines that `std::getline` returns. What follows the last newline is a line only if it is
not empty. -/
def getLines (s : Str) : List Str :=
  let pieces := s.splitOn 0x0A
  if pieces.getLast? = some [] then pieces.dropLast else pieces

/-- `ss >> s` into an empty string, and what remains of the stream. -/
def nextWord (s : Str) : Str × Str :=
  let s := s.dropWhile isSpace
  (s.takeWhile (!isSpace ·), s.dropWhile (!isSpace ·))

/-- `ss >> n` into a word that holds `old`, and what remains unless the stream fails. At the end
of the stream the word keeps what it held. -/
def nextNumber (old : UInt64) (s : Str) : UInt64 × Option Str :=
  match s.dropWhile isSpace with
  | [] => (old, none)
  | c :: s =>
    let (negative, s) := signed (c :: s)
    let digits := s.takeWhile fun c => decide (IsDigit c)
    let n := decimalValue digits
    if digits = [] then (0, none)
    else if n ≥ 2 ^ 64 then (0xFFFFFFFFFFFFFFFF, none)
    else
      (if negative then 0 - UInt64.ofNat n else UInt64.ofNat n,
        some (s.dropWhile fun c => decide (IsDigit c)))

/-- `while (ss >> kv)`. -/
def words (s : Str) : List Str := (s.splitOnP isSpace).filter (· ≠ [])

/-- A word is a field if it has an equals sign. -/
def keyValue (kv : Str) : Option (Str × Str) :=
  match kv.dropWhile (· != 0x3D) with
  | [] => none
  | _ :: v => some (kv.takeWhile (· != 0x3D), v)

/-- A later field of a name takes the place of an earlier one. -/
def scriptFields (s : Str) : ExtTreeMap Str Str :=
  OrderedMap.insertAll ∅ ((words s).filterMap keyValue)

inductive ScriptItem
  | obs (e : ScriptEntry)
  | sleep (ms : UInt64)

/-- The body of the loop over the lines. A time to sleep that is missing is not initialised, and
reads as `unset`. -/
def parseLine (unset : UInt64) (line : Str) : Option ScriptItem :=
  let line := line.rdropWhile fun c => c == 0x0D || c == 0x0A
  let (kw, rest) := nextWord line
  if kw = [] ∨ kw.head? = some 0x23 then none
  else if kw = lit "SLEEP" then some (.sleep (nextNumber unset rest).1)
  else if kw ≠ lit "OBS" then none
  else
    let (ty, rest) := nextWord rest
    let (obsTs, rest) := nextNumber 0 rest
    some (.obs
      { type := ObsType.fromCode ty, obsTs := obsTs, fields := (rest.map scriptFields).getD ∅ })

/-- The file has no text if it cannot be opened. -/
def parseScript (unset : UInt64) (path : Str) : Option Str → Except Str (List ScriptItem)
  | none => .error (lit "cannot open script: " ++ path)
  | some text => .ok ((getLines text).filterMap (parseLine unset))

/-- The word that is read as a type. -/
def ObsType.constantName (t : ObsType) : Str :=
  ((ObsType.codes.find? (·.2 == t)).map Prod.fst).getD (lit "UNKNOWN")

theorem ObsType.fromCode_constantName (t : ObsType) :
    ObsType.fromCode t.constantName = t := by
  cases t <;> decide

namespace ScriptItem

/-- The form of a line. -/
def line : ScriptItem → Str
  | sleep ms => lit "SLEEP " ++ decimal ms.toNat
  | obs e => lit "OBS " ++ e.type.constantName ++ 0x20 :: decimal e.obsTs.toNat ++
      e.fields.toList.flatMap fun p => 0x20 :: p.1 ++ 0x3D :: p.2

def text (items : List ScriptItem) : Str := items.flatMap fun i => i.line ++ [0x0A]

/-- Names and values are without blanks, and names without an equals sign. -/
def Writable : ScriptItem → Prop
  | sleep _ => True
  | obs e => ∀ p ∈ e.fields.toList,
      (∀ c ∈ p.1, isSpace c = false ∧ c ≠ 0x3D) ∧ ∀ c ∈ p.2, isSpace c = false

end ScriptItem

theorem not_mem_of_mem_splitOnP {α : Type*} {p : α → Bool} {s w : List α} (h : w ∈ s.splitOnP p) :
    ∀ c ∈ w, p c = false := by
  induction s generalizing w with
  | nil =>
    obtain rfl := List.mem_singleton.mp h
    simp
  | cons d s ih =>
    rw [List.splitOnP_cons_eq_if_modifyHead] at h
    split_ifs at h with hd
    · rcases List.mem_cons.mp h with rfl | h
      · simp
      · exact ih h
    · obtain ⟨first, rest, hs⟩ := List.exists_cons_of_ne_nil (List.splitOnP_ne_nil p s)
      rw [hs, List.modifyHead_cons] at h
      rcases List.mem_cons.mp h with rfl | h
      · exact List.forall_mem_cons.mpr ⟨by simpa using hd, ih (hs ▸ List.mem_cons_self)⟩
      · exact ih (hs ▸ List.mem_cons_of_mem _ h)

section Words
variable {c : UInt8} {s w : Str}

theorem words_cons_space (h : isSpace c = true) (s : Str) : words (c :: s) = words s := by
  rw [words, words, List.splitOnP_cons_eq_if_modifyHead, if_pos h]
  simp

/-- A word that ends in a blank is the first one. -/
theorem words_append_space (hne : w ≠ []) (hw : ∀ c ∈ w, isSpace c = false) (s : Str) :
    words (w ++ 0x20 :: s) = w :: words s := by
  rw [words, words, List.splitOnP_append_cons_of_forall_mem hw 0x20 rfl]
  simp [hne]

theorem words_of_no_space (hne : w ≠ []) (hw : ∀ c ∈ w, isSpace c = false) : words w = [w] := by
  rw [words, List.splitOnP_eq_singleton hw]
  simp [hne]

/-- Words with a blank before each. -/
theorem words_flatMap {l : List Str} (h : ∀ w ∈ l, w ≠ [] ∧ ∀ c ∈ w, isSpace c = false) :
    words (l.flatMap fun w => 0x20 :: w) = l := by
  induction l with
  | nil => rfl
  | cons w l ih =>
    obtain ⟨⟨hne, hw⟩, hl⟩ := List.forall_mem_cons.mp h
    rw [List.flatMap_cons, List.cons_append, words_cons_space rfl]
    cases l with
    | nil => simpa using words_of_no_space hne hw
    | cons w' l =>
      have hrest := ih hl
      rw [List.flatMap_cons, List.cons_append, words_cons_space rfl] at hrest
      rw [List.flatMap_cons, List.cons_append, words_append_space hne hw, hrest]

/-- A word with a blank before it, up to the next blank or the end. -/
theorem nextWord_append (hne : w ≠ []) (hw : ∀ c ∈ w, isSpace c = false)
    (hs : ∀ c ∈ s.head?, isSpace c = true) : nextWord (w ++ s) = (w, s) := by
  obtain ⟨c, w, rfl⟩ := List.exists_cons_of_ne_nil hne
  have hdrop : (c :: w ++ s).dropWhile isSpace = c :: w ++ s := by
    simp [hw c List.mem_cons_self]
  have hword : ∀ d ∈ c :: w, (!isSpace d) = true := fun d hd => by simp [hw d hd]
  have hend : s.takeWhile (!isSpace ·) = [] ∧ s.dropWhile (!isSpace ·) = s := by
    cases s with
    | nil => exact ⟨rfl, rfl⟩
    | cons d s => simp [hs d rfl]
  simp only [nextWord, hdrop, List.takeWhile_append_of_pos hword,
    List.dropWhile_append_of_pos hword, hend, List.append_nil]

theorem nextWord_space (s : Str) : nextWord (0x20 :: s) = nextWord s := rfl

theorem IsDigit.not_space (hc : IsDigit c) : isSpace c = false := by
  have hlow := UInt8.le_iff_toNat_le.mp hc.1
  simp only [isSpace, Bool.or_eq_false_iff, beq_eq_false_iff_ne, ne_eq, Bool.and_eq_false_iff,
    decide_eq_false_iff_not]
  refine ⟨hc.ne (by decide), .inr fun h => ?_⟩
  have hhigh := UInt8.le_iff_toNat_le.mp h
  simp only [UInt8.reduceToNat] at hlow hhigh
  omega

/-- A decimal numeral with a blank before it, up to the next blank or the end. -/
theorem nextNumber_decimal (old n : UInt64) (hs : ∀ c ∈ s.head?, isSpace c = true) :
    nextNumber old (0x20 :: (decimal n.toNat ++ s)) = (n, some s) := by
  have hdigits : ∀ d ∈ decimal n.toNat, decide (IsDigit d) = true :=
    fun d hd => decide_eq_true (isDigit_of_mem_decimal hd)
  have hend : s.takeWhile (fun c => decide (IsDigit c)) = [] ∧
      s.dropWhile (fun c => decide (IsDigit c)) = s := by
    cases s with
    | nil => exact ⟨rfl, rfl⟩
    | cons d s =>
      have hd : ¬ IsDigit d := fun hd => by simpa [hd.not_space] using hs d rfl
      simp [hd]
  obtain ⟨c, t, ht⟩ := List.exists_cons_of_ne_nil (decimal_ne_nil n.toNat)
  have hc : IsDigit c := isDigit_of_mem_decimal (n := n.toNat) (ht ▸ List.mem_cons_self)
  have hdrop : (0x20 :: (decimal n.toNat ++ s)).dropWhile isSpace = c :: (t ++ s) := by
    rw [List.dropWhile_cons_of_pos rfl, ht]
    simp [hc.not_space]
  have hsigned : signed (c :: (t ++ s)) = (false, decimal n.toNat ++ s) := by
    have hminus : c ≠ 0x2D := hc.ne (by decide)
    have hplus : c ≠ 0x2B := hc.ne (by decide)
    rw [ht]
    unfold signed
    split
    · rename_i heq
      exact absurd (List.cons.inj heq).1 hminus
    · rename_i heq
      exact absurd (List.cons.inj heq).1 hplus
    · rfl
  simp only [nextNumber, hdrop, hsigned, List.takeWhile_append_of_pos hdigits,
    List.dropWhile_append_of_pos hdigits, hend, List.append_nil, decimalValue_decimal]
  rw [if_neg (decimal_ne_nil _), if_neg (Nat.not_le_of_lt n.toNat_lt)]
  simp

end Words

section Lines

/-- A text is read like its parts up to a newline and after it. -/
theorem getLines_append_newline (s t : Str) :
    getLines (s ++ 0x0A :: t) = getLines (s ++ [0x0A]) ++ getLines t := by
  have hlast : ∀ l l' : List Str, l' ≠ [] → (l ++ l').getLast? = l'.getLast? := by
    intro l l' hne
    rw [List.getLast?_append_of_ne_nil l hne]
  have hpieces : ∀ u : Str, (s ++ 0x0A :: u).splitOn 0x0A = s.splitOn 0x0A ++ u.splitOn 0x0A :=
    List.splitOn_append_cons_self s
  have hne := List.splitOn_ne_nil (0x0A : UInt8) t
  have hfirst : getLines (s ++ [0x0A]) = s.splitOn 0x0A := by
    simp [getLines, hpieces]
  rw [hfirst]
  simp only [getLines, hpieces, hlast _ _ hne]
  split_ifs
  · rw [List.dropLast_append_of_ne_nil hne]
  · rfl

theorem getLines_line {line : Str} (h : 0x0A ∉ line) : getLines (line ++ [0x0A]) = [line] := by
  simp [getLines, List.splitOn_append_cons_self_of_not_mem h]

end Lines

theorem keyValue_append {k v : Str} (h : ∀ c ∈ k, c ≠ 0x3D) :
    keyValue (k ++ 0x3D :: v) = some (k, v) := by
  have hkey : ∀ c ∈ k, (c != 0x3D) = true := fun c hc => by simpa using h c hc
  simp [keyValue, List.takeWhile_append_of_pos hkey, List.dropWhile_append_of_pos hkey]

theorem append_of_keyValue {kv k v : Str} (h : keyValue kv = some (k, v)) :
    kv = k ++ 0x3D :: v ∧ ∀ c ∈ k, c ≠ 0x3D := by
  unfold keyValue at h
  have hwhole := List.takeWhile_append_dropWhile (p := (· != 0x3D)) (l := kv)
  have hhead := List.head?_dropWhile_not (· != (0x3D : UInt8)) kv
  split at h
  · cases h
  · rename_i c t hdrop
    obtain ⟨rfl, rfl⟩ := Prod.mk.inj (Option.some.inj h)
    rw [hdrop] at hwhole hhead
    obtain rfl : c = 0x3D := by simpa using hhead
    exact ⟨hwhole.symm, fun d hd => by simpa using List.mem_takeWhile_imp hd⟩

theorem ObsType.constantName_plain (t : ObsType) :
    t.constantName ≠ [] ∧ ∀ c ∈ t.constantName, isSpace c = false := by
  have h : t.constantName ≠ [] ∧ (t.constantName.all fun c => !isSpace c) = true := by
    cases t <;> decide
  exact ⟨h.1, by simpa using h.2⟩

theorem decimal_plain (n : ℕ) : ∀ c ∈ decimal n, isSpace c = false :=
  fun _ hc => (isDigit_of_mem_decimal hc).not_space

namespace ScriptItem

/-- The words of an entry after its time. -/
def fieldWords (e : ScriptEntry) : List Str := e.fields.toList.map fun p => p.1 ++ 0x3D :: p.2

theorem line_obs (e : ScriptEntry) : (obs e).line = lit "OBS" ++ 0x20 :: (e.type.constantName ++
    0x20 :: (decimal e.obsTs.toNat ++ (fieldWords e).flatMap fun w => 0x20 :: w)) := by
  simp [line, fieldWords, List.flatMap_map, lit]

theorem Writable.fieldWords {e : ScriptEntry} (h : (obs e).Writable) :
    ∀ w ∈ fieldWords e, w ≠ [] ∧ ∀ c ∈ w, isSpace c = false := by
  intro w hw
  obtain ⟨p, hp, rfl⟩ := List.mem_map.mp hw
  refine ⟨by simp, fun c hc => ?_⟩
  rcases List.mem_append.mp hc with hc | hc
  · exact ((h p hp).1 c hc).1
  · rcases List.mem_cons.mp hc with rfl | hc
    · rfl
    · exact (h p hp).2 c hc

/-- The only blanks of a line are spaces. -/
theorem Writable.line_plain {i : ScriptItem} (h : i.Writable) :
    ∀ c ∈ i.line, isSpace c = true → c = 0x20 := by
  have hplain : ∀ {w : Str}, (∀ c ∈ w, isSpace c = false) →
      ∀ c ∈ w, isSpace c = true → c = 0x20 := by
    intro w hw c hc hspace
    rw [hw c hc] at hspace
    cases hspace
  cases i with
  | sleep ms =>
    refine List.forall_mem_append.mpr ⟨?_, hplain (decimal_plain _)⟩
    decide +kernel
  | obs e =>
    rw [line_obs]
    refine List.forall_mem_append.mpr ⟨by decide +kernel, List.forall_mem_cons.mpr ⟨fun _ => rfl,
      List.forall_mem_append.mpr ⟨hplain e.type.constantName_plain.2, List.forall_mem_cons.mpr
        ⟨fun _ => rfl, List.forall_mem_append.mpr ⟨hplain (decimal_plain _), ?_⟩⟩⟩⟩⟩
    refine List.forall_mem_flatMap.mpr fun w hw => List.forall_mem_cons.mpr ⟨fun _ => rfl, ?_⟩
    exact hplain (h.fieldWords w hw).2

/-- The fields that are read from their words. -/
theorem scriptFields_fieldWords {e : ScriptEntry} (h : (obs e).Writable) :
    scriptFields ((ScriptItem.fieldWords e).flatMap fun w => 0x20 :: w) = e.fields := by
  have hfields : (ScriptItem.fieldWords e).filterMap keyValue = e.fields.toList := by
    rw [ScriptItem.fieldWords, List.filterMap_map]
    refine (List.filterMap_congr fun p hp => ?_).trans List.filterMap_some
    exact keyValue_append fun c hc => ((h p hp).1 c hc).2
  rw [scriptFields, words_flatMap h.fieldWords, hfields, OrderedMap.insertAll_toList]

/-- A line is read as what it was written for. -/
theorem parseLine_line (unset : UInt64) {i : ScriptItem} (h : i.Writable) :
    parseLine unset i.line = some i := by
  have htrim : i.line.rdropWhile (fun c => c == 0x0D || c == 0x0A) = i.line := by
    refine List.rdropWhile_eq_self_iff.mpr fun hne hlast => ?_
    have hmem := List.getLast_mem hne
    generalize i.line.getLast hne = c at hlast hmem
    have hspace : isSpace c = true := by
      rcases Bool.or_eq_true _ _ ▸ hlast with h | h <;> rw [beq_iff_eq.mp h] <;> rfl
    rw [h.line_plain c hmem hspace] at hlast
    cases hlast
  cases i with
  | sleep ms =>
    have hline : (sleep ms).line = lit "SLEEP" ++ 0x20 :: (decimal ms.toNat ++ []) := by
      simp [line, lit]
    have hkw : nextWord (sleep ms).line = (lit "SLEEP", 0x20 :: (decimal ms.toNat ++ [])) := by
      rw [hline]
      exact nextWord_append (by decide) (by decide +kernel) (by simp [isSpace])
    have hms := nextNumber_decimal unset ms (s := []) (by simp)
    simp only [parseLine, htrim, hkw, hms]
    rfl
  | obs e =>
    have hkw := line_obs e ▸ nextWord_append (s := 0x20 :: (e.type.constantName ++ 0x20 ::
      (decimal e.obsTs.toNat ++ (ScriptItem.fieldWords e).flatMap fun w => 0x20 :: w)))
      (by decide : lit "OBS" ≠ []) (by decide +kernel) (by simp [isSpace])
    have hty := nextWord_append (s := 0x20 :: (decimal e.obsTs.toNat ++
      (ScriptItem.fieldWords e).flatMap fun w => 0x20 :: w))
      e.type.constantName_plain.1 e.type.constantName_plain.2 (by simp [isSpace])
    have hts := nextNumber_decimal 0 e.obsTs
      (s := (ScriptItem.fieldWords e).flatMap fun w => 0x20 :: w) (by
        cases ScriptItem.fieldWords e <;> simp [isSpace])
    simp only [parseLine, htrim, hkw, nextWord_space, hty, hts, Option.map_some, Option.getD_some,
      scriptFields_fieldWords h, ObsType.fromCode_constantName]
    rfl

end ScriptItem

/-- The fields of a text are made of its words. -/
theorem mem_scriptFields {s : Str} {p : Str × Str} (h : p ∈ (scriptFields s).toList) :
    (∀ c ∈ p.1, isSpace c = false ∧ c ≠ 0x3D) ∧ ∀ c ∈ p.2, isSpace c = false := by
  rw [ExtTreeMap.mem_toList_iff_getElem?_eq_some] at h
  rcases OrderedMap.mem_of_getElem?_insertAll h with hempty | hmem
  · simp at hempty
  · obtain ⟨kv, hkv, hp⟩ := List.mem_filterMap.mp hmem
    obtain ⟨rfl, hkey⟩ := append_of_keyValue hp
    have hword := not_mem_of_mem_splitOnP (List.mem_of_mem_filter hkv)
    obtain ⟨hname, hvalue⟩ := List.forall_mem_append.mp hword
    exact ⟨fun c hc => ⟨hname c hc, hkey c hc⟩, fun c hc => hvalue c (List.mem_cons_of_mem _ hc)⟩

/-- Whatever is read can be written. -/
theorem writable_of_parseLine {unset : UInt64} {line : Str} {i : ScriptItem}
    (h : parseLine unset line = some i) : i.Writable := by
  simp only [parseLine] at h
  split_ifs at h
  · obtain rfl := Option.some.inj h
    trivial
  · obtain rfl := Option.some.inj h
    intro p hp
    revert hp
    dsimp only
    cases (nextNumber 0 (nextWord (nextWord (line.rdropWhile
        fun c => c == 0x0D || c == 0x0A)).2).2).2 with
    | none =>
      intro hp
      rw [Option.map_none, Option.getD_none, ExtTreeMap.mem_toList_iff_getElem?_eq_some] at hp
      simp at hp
    | some rest => exact mem_scriptFields

/-- The lines of a written text. -/
theorem parse_text (unset : UInt64) {items : List ScriptItem} (h : ∀ i ∈ items, i.Writable) :
    (getLines (ScriptItem.text items)).filterMap (parseLine unset) = items := by
  induction items with
  | nil => rfl
  | cons i items ih =>
    obtain ⟨hi, hitems⟩ := List.forall_mem_cons.mp h
    have hnewline : 0x0A ∉ i.line := fun hmem => absurd (hi.line_plain _ hmem rfl) (by decide)
    rw [ScriptItem.text, List.flatMap_cons, List.append_assoc, List.singleton_append,
      getLines_append_newline, getLines_line hnewline, List.filterMap_append,
      List.filterMap_cons_some (ScriptItem.parseLine_line unset hi)]
    exact congrArg (i :: ·) (ih hitems)

/-- The contents of scripts are the lists of items that can be written, and each is read from the
text that is written for it. Texts are read like their lines, one after the other. -/
theorem parseScript_normal_form (unset : UInt64) (path : Str) (items : List ScriptItem) :
    ((∃ text, parseScript unset path (some text) = .ok items) ↔
      parseScript unset path (some (ScriptItem.text items)) = .ok items) ∧
    ((∃ text, parseScript unset path (some text) = .ok items) ↔ ∀ i ∈ items, i.Writable) ∧
    ∀ s t, parseScript unset path (some (s ++ 0x0A :: t)) =
      (· ++ ·) <$> parseScript unset path (some (s ++ [0x0A])) <*>
        parseScript unset path (some t) := by
  have hwritable : ∀ text, parseScript unset path (some text) = .ok items →
      ∀ i ∈ items, i.Writable := by
    intro text htext i hi
    obtain rfl := Except.ok.inj htext
    obtain ⟨line, -, hline⟩ := List.mem_filterMap.mp hi
    exact writable_of_parseLine hline
  have hread : (∀ i ∈ items, i.Writable) →
      parseScript unset path (some (ScriptItem.text items)) = .ok items :=
    fun h => congrArg Except.ok (parse_text unset h)
  refine ⟨⟨fun ⟨text, htext⟩ => hread (hwritable text htext), fun h => ⟨_, h⟩⟩,
    ⟨fun ⟨text, htext⟩ => hwritable text htext, fun h => ⟨_, hread h⟩⟩, fun s t => ?_⟩
  simp only [parseScript, getLines_append_newline s t, List.filterMap_append]
  rfl

end ServingObservatory
