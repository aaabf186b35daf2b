import ServingObservatory.Platform

/-!
# JSON values and their canonical text

The members of an object are kept in key order, and setting a key again replaces
its value. The canonical text is compact.
-/
namespace ServingObservatory
open Std

inductive Json
  | null
  | bool (b : Bool)
  | int (v : Int64)
  | uint (v : UInt64)
  | double (v : F64)
  | string (s : Str)
  | array (items : List Json)
  | object (members : List (Str × Json))

namespace Json

/-- `obj_[key] = val` on the sorted members. -/
def setMember (key : Str) (val : Json) : List (Str × Json) → List (Str × Json)
  | [] => [(key, val)]
  | (k, v) :: members =>
    match compare key k with
    | .lt => (key, val) :: (k, v) :: members
    | .eq => (k, val) :: members
    | .gt => (k, v) :: setMember key val members

/-- A value that is not an object becomes one. -/
def set (j : Json) (key : Str) (val : Json) : Json :=
  match j with
  | object members => object (setMember key val members)
  | _ => object [(key, val)]

/-- The object after setting keys one after the other. -/
def setAll (j : Json) (l : List (Str × Json)) : Json := l.foldl (fun j p => j.set p.1 p.2) j

def escapeByte (c : UInt8) : Str :=
  if c = 0x22 then [0x5C, 0x22]
  else if c = 0x5C then [0x5C, 0x5C]
  else if c = 0x0A then [0x5C, 0x6E]
  else if c = 0x0D then [0x5C, 0x72]
  else if c = 0x09 then [0x5C, 0x74]
  else if c = 0x08 then [0x5C, 0x62]
  else if c = 0x0C then [0x5C, 0x66]
  else if c < 0x20 then
    [0x5C, 0x75, 0x30, 0x30, Id128.kHex.getD (c >>> 4).toNat 0, Id128.kHex.getD (c &&& 0xF).toNat 0]
  else [c]

def escapeJson (s : Str) : Str := s.flatMap escapeByte

/-- A quoted and escaped string. -/
def quoted (s : Str) : Str := [0x22] ++ escapeJson s ++ [0x22]

def writeDouble [Platform] (d : F64) : Str :=
  if d.isNaN || d.isInf then lit "null"
  else
    let buf := Platform.print d
    if buf.isEmpty then lit "0" else buf

/-- The comma before every element but the first. -/
def separator (first : Bool) : Str := if first then [] else lit ","

variable [Platform]

mutual

def writeJson : Json → Str
  | null => lit "null"
  | bool b => if b then lit "true" else lit "false"
  | int v => lit (toString v.toInt)
  | uint v => decimal v.toNat
  | double d => writeDouble d
  | string s => quoted s
  | array items => lit "[" ++ writeItems true items ++ lit "]"
  | object members => [0x7B] ++ writeMembers true members ++ [0x7D]

def writeItems : Bool → List Json → Str
  | _, [] => []
  | first, e :: items => separator first ++ writeJson e ++ writeItems false items

def writeMembers : Bool → List (Str × Json) → Str
  | _, [] => []
  | first, (k, v) :: members =>
    separator first ++ quoted k ++ lit ":" ++ writeJson v ++ writeMembers false members

end

def toCanonical (j : Json) : Str := writeJson j

end Json
end ServingObservatory
