import SymbolCatalog.Bytes

/-! The XXH64 checksum of a byte string, with seed zero. -/
namespace SymbolCatalog.Digest.XxHash64

def prime1 : UInt64 := 0x9E3779B185EBCA87
def prime2 : UInt64 := 0xC2B2AE3D27D4EB4F
def prime3 : UInt64 := 0x165667B19E3779F9
def prime4 : UInt64 := 0x85EBCA77C2B2AE63
def prime5 : UInt64 := 0x27D4EB2F165667C5

def rotate (x : UInt64) (n : UInt64) : UInt64 := (x <<< n) ||| (x >>> (64 - n))

def wordAt (data : Array UInt8) (pos width : Nat) : UInt64 :=
  (List.range width).foldr (fun i acc => acc * 256 + (data.getD (pos + i) 0).toUInt64) 0

def mix (lane word : UInt64) : UInt64 := rotate (lane + word * prime2) 31 * prime1

def join (hash lane : UInt64) : UInt64 := (hash ^^^ mix 0 lane) * prime1 + prime4

def stripes (data : Array UInt8) : UInt64 :=
  let lanes := (List.range (data.size / 32)).foldl (fun (a, b, c, d) i =>
      (mix a (wordAt data (32 * i) 8), mix b (wordAt data (32 * i + 8) 8),
        mix c (wordAt data (32 * i + 16) 8), mix d (wordAt data (32 * i + 24) 8)))
    (prime1 + prime2, prime2, (0 : UInt64), 0 - prime1)
  let (a, b, c, d) := lanes
  join (join (join (join (rotate a 1 + rotate b 7 + rotate c 12 + rotate d 18) a) b) c) d

def tail (data : Array UInt8) (hash : UInt64) : UInt64 :=
  let start := data.size / 32 * 32
  let eights := (data.size - start) / 8
  let hash := (List.range eights).foldl (fun h i =>
    rotate (h ^^^ mix 0 (wordAt data (start + 8 * i) 8)) 27 * prime1 + prime4) hash
  let start := start + 8 * eights
  let hash := if data.size - start < 4 then hash
    else rotate (hash ^^^ (wordAt data start 4 * prime1)) 23 * prime2 + prime3
  let start := if data.size - start < 4 then start else start + 4
  (List.range (data.size - start)).foldl (fun h i =>
    rotate (h ^^^ (wordAt data (start + i) 1 * prime5)) 11 * prime1) hash

def spread (hash : UInt64) : UInt64 :=
  let h := (hash ^^^ (hash >>> 33)) * prime2
  let h := (h ^^^ (h >>> 29)) * prime3
  h ^^^ (h >>> 32)

def hash (data : Array UInt8) : UInt64 :=
  let start := if data.size < 32 then prime5 else stripes data
  spread (tail data (start + data.size.toUInt64))

end SymbolCatalog.Digest.XxHash64
