import SymbolCatalog.CompressionLevel
import SymbolCatalog.Store.Error
import SymbolCatalog.Zstd.Encode

/-! Data as a store keeps it: a byte that names the codec, the length of the data as four bytes, and
the data as it is or compressed. It is compressed only where that makes it shorter. -/
namespace SymbolCatalog

structure Codec where
  compress : (effort : Nat) → Bytes → Option Bytes
  decompress : Bytes → (limit : Nat) → Option Bytes

namespace Codec

def zstd : Codec where
  compress effort data := some (Zstd.compressSafely effort data)
  decompress body limit := (Zstd.decompress body limit).toOption

/-- Compressing does not fail, and its result gives the data back when told the data's length. -/
def Lossless (codec : Codec) : Prop :=
  ∀ effort data, 1 ≤ effort → effort ≤ 22 → data.length < 0x100000000 →
    ∃ body, codec.compress effort data = some body ∧ codec.decompress body data.length = some data

end Codec

namespace Packed

def storedCodec : UInt8 := 0

def zstdCodec : UInt8 := 1

def framed (codec : UInt8) (length : Nat) (body : Bytes) : Bytes :=
  codec :: Bytes.ofNatLE 4 length ++ body

def compressed? (codec : Codec) (level : CompressionLevel) (data : Bytes) :
    Except StorageError (Option Bytes) :=
  match level.effort? with
  | none => .ok none
  | some effort =>
    match codec.compress effort.toNatClampNeg data with
    | some body => .ok (some body)
    | none => .error .compression

def packWith (codec : Codec) (level : CompressionLevel) (data : Bytes) :
    Except StorageError Bytes := do
  if 0x100000000 ≤ data.length then throw .compression
  match (← compressed? codec level data).filter (·.length < data.length) with
  | some body => pure (framed zstdCodec data.length body)
  | none => pure (framed storedCodec data.length data)

def decodeBody (codec : Codec) (name : UInt8) (body : Bytes) (length : Nat) :
    Except StorageError Bytes :=
  if name = storedCodec then .ok body
  else if name = zstdCodec then
    match codec.decompress body length with
    | some data => .ok data
    | none => .error .compression
  else .error (.corrupted (.unknownCodec name))

def unpackWith (codec : Codec) (frame : Bytes) : Except StorageError Bytes := do
  match frame with
  | name :: l0 :: l1 :: l2 :: l3 :: body =>
    let length := Bytes.toNatLE [l0, l1, l2, l3]
    let data ← decodeBody codec name body length
    if data.length ≠ length then throw (.corrupted (.decodedLength data.length length))
    pure data
  | short => throw (.corrupted (.shortFrame short.length))

def pack : CompressionLevel → Bytes → Except StorageError Bytes := packWith .zstd

def unpack : Bytes → Except StorageError Bytes := unpackWith .zstd

def isCompressed (frame : Bytes) : Bool := frame.head? = some zstdCodec

end Packed
end SymbolCatalog
