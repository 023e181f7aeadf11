/-! Bit fields of byte arrays. Bit 0 is the lowest bit of the first byte. A section is read either
from its first bit on, or from its end mark, the highest set bit of its last byte, backwards. -/
namespace SymbolCatalog.Zstd

inductive Fault where
  | truncated
  | notAFrame
  | unsupported
  | corrupt
  | overflow
  | checksum
  deriving DecidableEq, Repr

def twoTo (n : Nat) : Nat := 1 <<< n

def byteAt (data : Array UInt8) (i : Nat) : Nat := (data.getD i 0).toNat

def wordAt (data : Array UInt8) (pos width : Nat) : Nat :=
  (List.range width).foldr (fun i acc => acc * 256 + byteAt data (pos + i)) 0

def bitsAt (data : Array UInt8) (start count : Nat) : Nat :=
  let first := start / 8
  wordAt data first ((start + count + 7) / 8 - first) >>> (start % 8) % twoTo count

def highBit (n : Nat) : Nat := n.log2

/-- A section that is read backwards: its first bit, and how many of its bits are unread. A read
beyond the first bit finds zeros and leaves a negative number. -/
structure BackBits where
  data : Array UInt8
  start : Nat
  unread : Int

namespace BackBits

def ofSection (data : Array UInt8) (pos length : Nat) : Except Fault BackBits :=
  if length = 0 then .error .truncated
  else
    let last := byteAt data (pos + length - 1)
    if last = 0 then .error .corrupt
    else .ok ⟨data, 8 * pos, (8 * (length - 1) + highBit last : Nat)⟩

def peek (b : BackBits) (count : Nat) : Nat :=
  match b.unread with
  | .ofNat unread =>
    if count ≤ unread then bitsAt b.data (b.start + (unread - count)) count
    else bitsAt b.data b.start unread <<< (count - unread)
  | .negSucc _ => 0

def skip (b : BackBits) (count : Nat) : BackBits := { b with unread := b.unread - count }

def take (b : BackBits) (count : Nat) : Nat × BackBits := (b.peek count, b.skip count)

def finished (b : BackBits) : Bool := b.unread = 0

def overrun (b : BackBits) : Bool := b.unread < 0

end BackBits
end SymbolCatalog.Zstd
