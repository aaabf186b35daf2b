import ServingObservatory.BinaryCodec
import ServingObservatory.Crc

/-!
# Protocol frames

A frame is a length, a checksum and a body; the body is a version, a message type
and a payload. The length counts the bytes after itself and the checksum covers the
body. The decoder takes a whole frame and nothing more.
-/
namespace ServingObservatory
open BinaryWriter BinaryReader

def kProtocolVersion : UInt16 := 1

inductive MsgType
  | hello | helloAck | obs | obsAck | status | bye | ping | pong
  deriving DecidableEq, Repr

/-- The codes start at one. -/
def MsgType.code (t : MsgType) : UInt16 := UInt16.ofNat (t.ctorIdx + 1)

def MsgType.all : List MsgType := [.hello, .helloAck, .obs, .obsAck, .status, .bye, .ping, .pong]

/-- The enumerator with a code between those of `HELLO` and `PONG`. -/
def MsgType.ofCode (code : UInt16) : Option MsgType :=
  if MsgType.hello.code ≤ code ∧ code ≤ MsgType.pong.code then
    MsgType.all[code.toNat - 1]?
  else none

/-- One bit of the checksum. -/
def crcBit (crc : UInt32) : UInt32 :=
  let mask := (-(crc &&& 1).toInt32).toUInt32
  (crc >>> 1) ^^^ (0xEDB88320 &&& mask)

def crcByte (crc : UInt32) (b : UInt8) : UInt32 := crcBit^[8] (crc ^^^ b.toUInt32)

def crc32 (data : Bytes) : UInt32 := data.foldl crcByte 0xFFFFFFFF ^^^ 0xFFFFFFFF

structure Frame where
  version : UInt16 := kProtocolVersion
  type : MsgType := .ping
  payload : Bytes := []
  deriving DecidableEq, Repr

namespace Frame

/-- The bytes after the length field: checksum, version, type and payload. -/
def wireLength (payload : Bytes) : UInt32 := UInt32.ofNat (8 + payload.length)

def encodeBody (t : MsgType) (payload : Bytes) (version : UInt16) : BinaryWriter Unit := do
  writeU16 version
  writeU16 t.code
  payload.forM writeU8

def encode (t : MsgType) (payload : Bytes) (version : UInt16 := kProtocolVersion) :
    Except Str Bytes := do
  let (_, body) ← (encodeBody t payload version).run []
  let (_, out) ← (do
    writeU32 (wireLength payload)
    writeU32 (crc32 body)
    body.forM writeU8 : BinaryWriter Unit).run []
  return out

/-- The `n` bytes of a buffer from an offset on; `none` is a read outside the buffer. -/
def slice (b : Bytes) (offset n : ℕ) : Option Bytes :=
  if offset + n ≤ b.length then some ((b.drop offset).take n) else none

/-- The part of decoding that follows the checksum. -/
def decodeBody (body : BinaryReader) : Except Str Frame :=
  let (version, body) := rU16.run body
  if version ≠ kProtocolVersion then
    .error (lit "unsupported protocol version " ++ decimal version.toNat)
  else
    let (t, body) := rU16.run body
    match MsgType.ofCode t with
    | none => .error (lit "unknown message type " ++ decimal t.toNat)
    | some type =>
      let (payload, body) := (readRaw (UInt32.ofNat body.remaining)).run body
      let (ended, body) := requireEnd.run body
      if !ended then .error (lit "trailing garbage in frame: " ++ body.err)
      else .ok { version, type, payload }

/-- `none` is a decoder that has read outside its buffer. -/
def decode (b : Bytes) : Option (Except Str Frame) :=
  let (len, r) := rU32.run { unread := b }
  if r.failed then some (.error (lit "truncated frame header"))
  else if len.toNat ≠ b.length - 4 then
    some (.error (lit "frame length mismatch: declared " ++ decimal len.toNat ++ lit " but " ++
      decimal (b.length - 4) ++ lit " bytes follow"))
  else if len < 8 ∨ len > 64 * 1024 * 1024 then some (.error (lit "frame length out of range"))
  else
    let (expectedCrc, r) := rU32.run r
    if len < 4 then some (.error (lit "frame body truncated"))
    else
      let (body, _) := (sub (len - 4)).run r
      if body.failed then some (.error (lit "frame body overruns"))
      else do
        let actualCrc := crc32 (← slice b 8 (len - 4).toNat)
        if actualCrc ≠ expectedCrc then some (.error (lit "checksum mismatch"))
        else some (decodeBody body)

end Frame
end ServingObservatory
