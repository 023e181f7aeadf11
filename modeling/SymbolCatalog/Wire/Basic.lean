import SymbolCatalog.Wire.Varint

/-! The binary form of values: fields in order, bytes and truth values as one byte, other integers
of variable length, an optional value after a tag, and a text, list or dictionary after its length.
-/
namespace SymbolCatalog

class Wire (α : Type) where
  write : α → Bytes
  read : Wire.Reader α

export Wire (write read)

namespace Wire

def ReadsBack {α : Type} [Wire α] (a : α) : Prop :=
  ∀ rest : Bytes, (read : Reader α) (write a ++ rest) = .ok (a, rest)

def readTag (refuse : UInt8 → ReadError) : Reader Bool := do
  match ← readByte with
  | 0 => pure false
  | 1 => pure true
  | b => throw (refuse b)

def readOption {α : Type} (item : Reader α) : Reader (Option α) := do
  if ← readTag .invalidOption then some <$> item else pure none

def writeOption {α : Type} (item : α → Bytes) : Option α → Bytes
  | none => [0]
  | some a => 1 :: item a

def readMany {α : Type} (item : Reader α) : (n : Nat) → (before : List α) → Reader (List α)
  | 0, before => pure before.reverse
  | n + 1, before => do readMany item n ((← item) :: before)

def readList {α : Type} (item : Reader α) : Reader (List α) := do
  readMany item (← readLength) []

def writeList {α : Type} (item : α → Bytes) (items : List α) : Bytes :=
  writeVarint items.length ++ items.flatMap item

def readText : Reader String := do
  match Text.Utf8.decode (← readBytes (← readTextLength)) with
  | .ok text => pure text
  | .error fault => throw (.invalidUtf8 fault)

def writeText (text : String) : Bytes :=
  let bytes := Text.Utf8.encode text
  writeVarint bytes.length ++ bytes

def decode? {α : Type} [Wire α] (bytes : Bytes) : Except ReadError (α × Bytes) := Wire.read bytes

instance : Wire UInt8 := ⟨fun b => [b], readByte⟩
instance : Wire Bool := ⟨fun b => [if b then 1 else 0], readTag .invalidBool⟩
instance : Wire UInt32 := ⟨fun n => writeVarint n.toNat, readUInt32⟩
instance : Wire String := ⟨writeText, readText⟩
instance {α : Type} [Wire α] : Wire (Option α) := ⟨writeOption write, readOption read⟩
instance {α : Type} [Wire α] : Wire (List α) := ⟨writeList write, readList read⟩

instance {α β : Type} [Wire α] [Wire β] : Wire (α × β) where
  write p := write p.1 ++ write p.2
  read := do
    let a ← read
    let b ← read
    pure (a, b)

end Wire
end SymbolCatalog
