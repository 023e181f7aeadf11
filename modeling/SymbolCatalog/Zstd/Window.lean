import SymbolCatalog.Zstd.Bits

/-! Views of data at a position: words of four and eight bytes, their scattered keys for tables of
places, and the length on which two positions agree. -/
namespace SymbolCatalog.Zstd

def word4 (data : Array UInt8) (pos : Nat) : UInt32 :=
  (data.getD pos 0).toUInt32 ||| (data.getD (pos + 1) 0).toUInt32 <<< 8 |||
    (data.getD (pos + 2) 0).toUInt32 <<< 16 ||| (data.getD (pos + 3) 0).toUInt32 <<< 24

def word8 (data : Array UInt8) (pos : Nat) : UInt64 :=
  (word4 data pos).toUInt64 ||| (word4 data (pos + 4)).toUInt64 <<< 32

def keyAt (data : Array UInt8) (log width pos : Nat) : Nat :=
  let short := UInt32.ofNat (32 - log)
  let long := UInt64.ofNat (64 - log)
  match width with
  | 5 => (((word8 data pos <<< 24) * 889523592379) >>> long).toNat
  | 6 => (((word8 data pos <<< 16) * 227718039650203) >>> long).toNat
  | 7 => (((word8 data pos <<< 8) * 58295818150454627) >>> long).toNat
  | 8 => ((word8 data pos * 0xCF1BBCDCB7A56463) >>> long).toNat
  | _ => ((word4 data pos * 2654435761) >>> short).toNat

def keyOfThree (data : Array UInt8) (log pos : Nat) : Nat :=
  (((word4 data pos <<< 8) * 506832829) >>> UInt32.ofNat (32 - log)).toNat

def sameFour (data : Array UInt8) (i j : Nat) : Bool := word4 data i == word4 data j

def sameThree (data : Array UInt8) (i j : Nat) : Bool :=
  word4 data i <<< 8 == word4 data j <<< 8

def sameByte (data : Array UInt8) (i j : Nat) : Bool := data.getD i 0 == data.getD j 0

def agreeing (data : Array UInt8) : (fuel i j count : Nat) → Nat
  | 0, _, _, count => count
  | fuel + 1, i, j, count =>
    if sameByte data i j then agreeing data fuel (i + 1) (j + 1) (count + 1) else count

def agreement (data : Array UInt8) (i j stop : Nat) : Nat := agreeing data (stop - j) i j 0

def agreementBefore (data : Array UInt8) (low anchor : Nat) : (fuel i j count : Nat) → Nat
  | 0, _, _, count => count
  | fuel + 1, i, j, count =>
    if low < i ∧ anchor < j ∧ sameByte data (i - 1) (j - 1) then
      agreementBefore data low anchor fuel (i - 1) (j - 1) (count + 1)
    else count

end SymbolCatalog.Zstd
