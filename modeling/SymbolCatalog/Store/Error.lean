import SymbolCatalog.Wire.Error

/-! Why a store cannot answer. -/
namespace SymbolCatalog

inductive IoKind where
  | notFound
  | isADirectory
  | invalidData
  | other
  deriving DecidableEq, Repr

def IoKind.name : IoKind → String
  | .notFound => "NotFound"
  | .isADirectory => "IsADirectory"
  | .invalidData => "InvalidData"
  | .other => "Other"

inductive Corruption where
  | shortFrame (length : Nat)
  | unknownCodec (codec : UInt8)
  | decodedLength (found declared : Nat)
  | shortSnapshot (length : Nat)
  | payloadLength (declared total : Nat)
  | longPayload (length : Nat)
  | checksum
  | trailing (count : Nat)
  deriving DecidableEq, Repr

def Corruption.detail : Corruption → String
  | .shortFrame length => s!"payload frame of {length} bytes"
  | .unknownCodec codec => s!"unknown payload codec {codec.toNat}"
  | .decodedLength found declared => s!"payload decoded to {found} bytes, frame says {declared}"
  | .shortSnapshot length => s!"snapshot of {length} bytes is shorter than its header"
  | .payloadLength declared total =>
    s!"payload length {declared} does not match snapshot size {total}"
  | .longPayload length => s!"snapshot payload of {length} bytes"
  | .checksum => "checksum mismatch"
  | .trailing count => s!"{count} trailing bytes after index record"

inductive StorageError where
  | io (kind : IoKind)
  | unreadable (e : Wire.ReadError)
  | compression
  | corrupted (what : Corruption)
  | badMagic
  | unsupportedVersion (found : Nat)
  deriving DecidableEq, Repr

def StorageError.message? : StorageError → Option String
  | .io _ | .compression => none
  | .unreadable e => some e.message
  | .corrupted what => some ("Corrupted store: " ++ what.detail)
  | .badMagic => some "Invalid store format: expected DIDX magic bytes"
  | .unsupportedVersion found => some s!"Unsupported store version: {found} (expected 1)"

end SymbolCatalog
