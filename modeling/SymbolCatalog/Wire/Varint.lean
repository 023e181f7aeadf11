import SymbolCatalog.Wire.Error

/-! Integers of variable length: one byte up to 250, else a marker byte and two, four or eight
bytes. Writers take the shortest form, readers accept a longer one. -/
namespace SymbolCatalog.Wire

abbrev Reader (α : Type) := StateT Bytes (Except ReadError) α

def readByte : Reader UInt8
  | [] => .error (.unexpectedEnd 1)
  | b :: rest => .ok (b, rest)

def readBytes (n : Nat) : Reader Bytes := fun bytes =>
  match Bytes.splitExact n bytes with
  | some split => .ok split
  | none => .error (.unexpectedEnd (n - bytes.length))

def readFixed (width : Nat) : Reader Nat := Bytes.toNatLE <$> readBytes width

inductive Marker where
  | value (n : Nat)
  | bytes (width : Nat)
  | sixteen
  | reserved
  deriving DecidableEq, Repr

def marker (b : UInt8) : Marker :=
  if b ≤ 250 then .value b.toNat
  else if b = 251 then .bytes 2
  else if b = 252 then .bytes 4
  else if b = 253 then .bytes 8
  else if b = 254 then .sixteen
  else .reserved

/-- Reads an integer of at most `limit` bytes after the marker; `expected` names the width asked
for if the marker announces more. -/
def readVarint (limit : Nat) (expected : IntWidth) : Reader Nat := do
  match marker (← readByte) with
  | .value n => pure n
  | .bytes width =>
    if width ≤ limit then readFixed width else throw (.invalidWidth expected .u64)
  | .sixteen => throw (.invalidWidth expected .u128)
  | .reserved => throw (.invalidWidth expected .reserved)

def readUInt32 : Reader UInt32 := UInt32.ofNat <$> readVarint 4 .u32

def readLength : Reader Nat := readVarint 8 .length

/-- The length of a text. Which width a refusal names depends on whether nine bytes are left. -/
def readTextLength : Reader Nat := fun bytes =>
  readVarint 8 (if (bytes.drop 8).isEmpty then .u64 else .u32) bytes

def writeVarint (n : Nat) : Bytes :=
  if n ≤ 250 then [UInt8.ofNat n]
  else if n < 0x10000 then 251 :: Bytes.ofNatLE 2 n
  else if n < 0x100000000 then 252 :: Bytes.ofNatLE 4 n
  else 253 :: Bytes.ofNatLE 8 n

end SymbolCatalog.Wire
