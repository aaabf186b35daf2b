import Mathlib.Data.List.DropRight
import ServingObservatory.Identity

/-!
# Identities from text

The text is trimmed, a hexadecimal prefix is dropped and separators are skipped. What is
left must be 32 hexadecimal digits, which are shifted into the two words.
-/
namespace ServingObservatory

def isBlank (c : UInt8) : Bool := c == 0x20 || c == 0x09 || c == 0x0D || c == 0x0A

def trim (s : Str) : Str := (s.dropWhile isBlank).rdropWhile isBlank

namespace Id128

def isSeparator (c : UInt8) : Bool := c == 0x2D || c == 0x3A || c == 0x5F || c == 0x20

/-- The loop over the characters, which folds letters to lower case. -/
def clean : Str → Except Str Str
  | [] => .ok []
  | c :: t =>
    if isSeparator c then clean t
    else if 0x30 ≤ c && c ≤ 0x39 then (clean t).map (c :: ·)
    else if 0x61 ≤ c && c ≤ 0x66 then (clean t).map (c :: ·)
    else if 0x41 ≤ c && c ≤ 0x46 then (clean t).map ((c - 0x41 + 0x61) :: ·)
    else .error (lit "invalid hex character")

def nibble (c : UInt8) : UInt8 := if c ≤ 0x39 then c - 0x30 else c - 0x61 + 10

/-- One half of the digits, shifted into a word. -/
def word (digits : Str) : UInt64 :=
  digits.foldl (fun w c => (w <<< 4) ||| (nibble c).toUInt64) 0

def dropHexPrefix : Str → Str
  | 0x30 :: x :: t => if x == 0x78 || x == 0x58 then t else 0x30 :: x :: t
  | t => t

def parse (s : Str) : Except Str Id128 := do
  let cleaned ← clean (dropHexPrefix (trim s))
  if cleaned.length ≠ 32 then
    .error (lit "expected 32 hex chars, got " ++ decimal cleaned.length)
  else .ok ⟨word (cleaned.take 16), word (cleaned.drop 16)⟩

example : parse (lit " 0x000000000000000a-00000000000000FF\n") = .ok ⟨10, 255⟩ := by decide

end Id128
end ServingObservatory
