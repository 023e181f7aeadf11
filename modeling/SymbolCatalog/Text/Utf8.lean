import SymbolCatalog.Bytes

/-! UTF-8 over byte strings. Decoding refuses overlong forms, surrogates and code points above
U+10FFFF, and tells where the longest valid beginning ends and how many bytes are at fault. -/
namespace SymbolCatalog.Text.Utf8

structure Malformed where
  validUpTo : Nat
  /-- How many bytes are at fault; nothing when the string ends inside a character. -/
  faultLength : Option Nat
  deriving DecidableEq, Repr

inductive Front where
  | char (c : Char) (rest : Bytes)
  | fault (length : Nat)
  | cut
  deriving DecidableEq, Repr

def isContinuation (b : UInt8) : Bool := 0x80 ≤ b && b ≤ 0xBF

def payload (b : UInt8) : Nat := b.toNat % 64

/-- The range of the second byte after a lead of three bytes: no overlong form, no surrogate. -/
def secondOfThree (lead second : UInt8) : Bool :=
  if lead = 0xE0 then 0xA0 ≤ second && second ≤ 0xBF
  else if lead = 0xED then 0x80 ≤ second && second ≤ 0x9F
  else isContinuation second

/-- The range of the second byte after a lead of four bytes: no overlong form, nothing above
U+10FFFF. -/
def secondOfFour (lead second : UInt8) : Bool :=
  if lead = 0xF0 then 0x90 ≤ second && second ≤ 0xBF
  else if lead = 0xF4 then 0x80 ≤ second && second ≤ 0x8F
  else isContinuation second

def front (lead : UInt8) (rest : Bytes) : Front :=
  if 0xC2 ≤ lead && lead ≤ 0xDF then
    match rest with
    | [] => .cut
    | b :: rest =>
      if isContinuation b then .char (.ofNat (lead.toNat % 32 * 64 + payload b)) rest
      else .fault 1
  else if 0xE0 ≤ lead && lead ≤ 0xEF then
    match rest with
    | [] => .cut
    | b :: rest =>
      if !secondOfThree lead b then .fault 1
      else match rest with
        | [] => .cut
        | c :: rest =>
          if isContinuation c then
            .char (.ofNat ((lead.toNat % 16 * 64 + payload b) * 64 + payload c)) rest
          else .fault 2
  else if 0xF0 ≤ lead && lead ≤ 0xF4 then
    match rest with
    | [] => .cut
    | b :: rest =>
      if !secondOfFour lead b then .fault 1
      else match rest with
        | [] => .cut
        | c :: rest =>
          if !isContinuation c then .fault 2
          else match rest with
            | [] => .cut
            | d :: rest =>
              if isContinuation d then
                .char (.ofNat (((lead.toNat % 8 * 64 + payload b) * 64 + payload c) * 64
                  + payload d)) rest
              else .fault 3
  else .fault 1

theorem length_of_front {lead : UInt8} {rest tail : Bytes} {c : Char}
    (h : front lead rest = .char c tail) : tail.length < rest.length := by
  unfold front at h
  repeat' split at h
  all_goals first
    | contradiction
    | (cases h; simp only [List.length_cons]; omega)

def decodeFrom (pos : Nat) (before : List Char) : Bytes → Except Malformed (List Char)
  | [] => .ok before.reverse
  | b :: rest =>
    if b < 0x80 then decodeFrom (pos + 1) (.ofNat b.toNat :: before) rest
    else
      match h : front b rest with
      | .char c tail =>
        have : tail.length < rest.length := length_of_front h
        decodeFrom (pos + c.utf8Size) (c :: before) tail
      | .fault n => .error ⟨pos, some n⟩
      | .cut => .error ⟨pos, none⟩
termination_by bytes => bytes.length
decreasing_by
  · simp
  · simp only [List.length_cons]; omega

def decode (bytes : Bytes) : Except Malformed String :=
  (decodeFrom 0 [] bytes).map String.ofList

def encodeChars (cs : List Char) : Bytes := cs.flatMap String.utf8EncodeChar

def encode (text : String) : Bytes := encodeChars text.toList

def size (cs : List Char) : Nat := cs.foldr (fun c sum => c.utf8Size + sum) 0

def lead (c : Char) : UInt8 := (String.utf8EncodeChar c).headD 0

@[simp] theorem encodeChars_append (a b : List Char) :
    encodeChars (a ++ b) = encodeChars a ++ encodeChars b := by simp [encodeChars]

@[simp] theorem size_append (a b : List Char) : size (a ++ b) = size a + size b := by
  induction a with
  | nil => simp [size]
  | cons c a ih =>
    simp only [size, List.cons_append, List.foldr_cons] at ih ⊢
    omega

@[simp] theorem size_cons (c : Char) (cs : List Char) : size (c :: cs) = c.utf8Size + size cs := rfl

theorem length_encodeChars (cs : List Char) : (encodeChars cs).length = size cs := by
  induction cs with
  | nil => rfl
  | cons c cs ih =>
    rw [size_cons, ← ih, encodeChars, List.flatMap_cons, List.length_append,
      String.length_utf8EncodeChar]
    rfl

end SymbolCatalog.Text.Utf8
