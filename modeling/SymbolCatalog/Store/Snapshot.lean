import SymbolCatalog.Digest.Sha256
import SymbolCatalog.Store.Entries
import SymbolCatalog.Store.Packed

/-! A dictionary as the bytes of a snapshot: four magic bytes, the version as two bytes, the length
of the payload as four, the payload, and its SHA-256 digest. The payload is the packed dictionary.
-/
namespace SymbolCatalog.Snapshot

def magic : Bytes := [0x44, 0x49, 0x44, 0x58]

def version : Nat := 1

def headerLength : Nat := 10

def digestLength : Nat := 32

def framed (payload : Bytes) : Bytes :=
  magic ++ Bytes.ofNatLE 2 version ++ Bytes.ofNatLE 4 payload.length ++ payload ++
    Digest.sha256 payload

def encode (codec : Codec) (level : CompressionLevel) (entries : Entries) :
    Except StorageError Bytes := do
  let payload ← Packed.packWith codec level (write entries)
  if 0x100000000 ≤ payload.length then throw (.corrupted (.longPayload payload.length))
  pure (framed payload)

/-- The payload of a snapshot. The first of these that is wrong is reported: the length of the
whole, the magic bytes, the version, the length of the payload, the digest. -/
def payload (bytes : Bytes) : Except StorageError Bytes := do
  let total := bytes.length
  if total < headerLength + digestLength then throw (.corrupted (.shortSnapshot total))
  if bytes.take 4 ≠ magic then throw .badMagic
  let found := Bytes.toNatLE ((bytes.drop 4).take 2)
  if found ≠ version then throw (.unsupportedVersion found)
  let declared := Bytes.toNatLE ((bytes.drop 6).take 4)
  if total ≠ headerLength + declared + digestLength then
    throw (.corrupted (.payloadLength declared total))
  let payload := (bytes.drop headerLength).take declared
  if Digest.sha256 payload ≠ bytes.drop (headerLength + declared) then
    throw (.corrupted .checksum)
  pure payload

def decode (codec : Codec) (bytes : Bytes) : Except StorageError Entries := do
  let data ← Packed.unpackWith codec (← payload bytes)
  match Wire.decode? (α := Entries) data with
  | .ok (entries, _) => pure entries
  | .error e => throw (.unreadable e)

end SymbolCatalog.Snapshot
