import SymbolCatalog.Signature.Method

/-! Reading descriptors and signatures as bytes. A scan can fail in two ways that readers of
characters cannot: a cut inside a character is a panic, and a loop that has used up its rounds is
exhausted. -/
namespace SymbolCatalog.Signature
open Text

structure Scanner where
  bytes : Bytes
  pos : Nat
  /-- Where names were cut, from byte to byte, the latest first. -/
  slices : List (Nat × Nat)
  deriving DecidableEq, Repr

/-- Why a scan gives no value. -/
inductive Halt where
  | fault (fault : Fault)
  | panicked
  | exhausted
  deriving DecidableEq, Repr

abbrev Scan (α : Type) := ExceptT Halt (StateM Scanner) α

namespace Scanner

def start (text : String) : Scanner := ⟨Utf8.encode text, 0, []⟩

def latin (b : UInt8) : Char := .ofNat b.toNat

def next? (s : Scanner) : Option Char := s.bytes[s.pos]?.map latin

def moved (s : Scanner) (count : Nat) : Scanner := { s with pos := s.pos + count }

def onBoundary (s : Scanner) (i : Nat) : Bool :=
  i = 0 || i = s.bytes.length || s.bytes[i]?.any fun b => !Utf8.isContinuation b

end Scanner

namespace Scan

def refuse {α : Type} (cause : Cause) : Scan α := fun s => (.error (.fault ⟨s.pos, cause⟩), s)

def exhaust {α : Type} : Scan α := fun s => (.error .exhausted, s)

def position : Scan Nat := fun s => (.ok s.pos, s)

def peek : Scan (Option Char) := fun s => (.ok s.next?, s)

def advance : Scan Unit := fun s => (.ok (), s.moved 1)

def atEnd : Scan Bool := fun s => (.ok (decide (s.bytes.length ≤ s.pos)), s)

def bump : Scan (Option Char) := fun s => (.ok s.next?, if s.next?.isSome then s.moved 1 else s)

def eat (want : Char) : Scan Bool := fun s =>
  if s.next? = some want then (.ok true, s.moved 1) else (.ok false, s)

def expect (want : Char) : Scan Unit := fun s =>
  if s.next? = some want then (.ok (), s.moved 1) else (.error (.fault ⟨s.pos, .expected want s.next?⟩), s)

def toStop (stops : List Char) (slashes : Bool) : (rounds : Nat) → Scan Unit
  | 0 => exhaust
  | rounds + 1 => do
    match ← peek with
    | none => refuse .unterminatedName
    | some b =>
      if b ∈ stops then pure ()
      else if b ∈ reserved && !(b = '/' && slashes) then refuse (.reservedInName b)
      else do
        advance
        toStop stops slashes rounds

def cut (start : Nat) : Scan String := fun s =>
  let kept := { s with slices := (start, s.pos) :: s.slices }
  if start ≤ s.pos && s.pos ≤ s.bytes.length && s.onBoundary start && s.onBoundary s.pos then
    match Utf8.decode ((s.bytes.drop start).take (s.pos - start)) with
    | .ok name => (.ok name, kept)
    | .error _ => (.error .panicked, kept)
  else (.error .panicked, kept)

def identifier (bound : Nat) (stops : List Char) (slashes : Bool) : Scan String := do
  let start ← position
  toStop stops slashes bound
  let pos ← position
  if pos = start then refuse .emptyName else cut start

/-! Descriptors. Every loop has `bound` rounds. -/

def dims : (rounds : Nat) → (depth : UInt8) → Scan UInt8
  | 0, _ => exhaust
  | rounds + 1, depth => do
    if ← eat '[' then
      if depth = 255 then refuse .tooManyDimensions else dims rounds (depth + 1)
    else pure depth

def field (bound : Nat) : Scan Ty := do
  let depth ← dims bound 0
  match ← bump with
  | none => refuse .missingFieldType
  | some 'L' =>
    let name ← identifier bound [';'] true
    expect ';'
    pure (.classType depth (.last name .nil))
  | some tag =>
    match Primitive.ofTag? tag with
    | some p => pure (.primitive depth p)
    | none => refuse (.unknownFieldTag tag)

def parameters (item : Scan Ty) : (rounds : Nat) → (before : List Ty) → Scan (List Ty)
  | 0, _ => exhaust
  | rounds + 1, before => do
    if ← eat ')' then pure before.reverse
    else if ← atEnd then refuse .unterminatedParameters
    else parameters item rounds ((← item) :: before)

def parameterList (bound : Nat) (item : Scan Ty) : Scan (List Ty) := do
  expect '('
  parameters item bound []

def result (item : Scan Ty) : Scan (Option Ty) := do
  if ← eat 'V' then pure none else some <$> item

def finish (cause : Cause) : Scan Unit := do
  unless ← atEnd do refuse cause

def descriptor (bound : Nat) : Scan MethodTypes := do
  let parameters ← parameterList bound (field bound)
  let result? ← result (field bound)
  finish .trailingAfterReturn
  pure (MethodDescriptor.types ⟨parameters, result?⟩)

/-! Signatures. The scans of types take the scan of a nested class as an argument, as readers do. -/

def typeVariable (bound : Nat) : Scan String := do
  expect 'T'
  let name ← identifier bound [';'] false
  expect ';'
  pure name

def type (bound : Nat) (nested : Scan ClassTy) : Scan Ty := do
  let depth ← dims bound 0
  match ← peek with
  | none => refuse .missingType
  | some 'L' => .classType depth <$> nested
  | some 'T' => .variable depth <$> typeVariable bound
  | some tag =>
    match Primitive.ofTag? tag with
    | some p => advance; pure (.primitive depth p)
    | none => refuse (.unknownTypeTag tag)

def reference (bound : Nat) (nested : Scan ClassTy) : Scan Ty := do
  match ← peek with
  | some 'L' => .classType 0 <$> nested
  | some 'T' => .variable 0 <$> typeVariable bound
  | some '[' => type bound nested
  | _ => refuse .expectedReference

def variance : Scan Variance := do
  if ← eat '+' then pure .covariant
  else if ← eat '-' then pure .contravariant
  else pure .exact

def argItems (bound : Nat) (nested : Scan ClassTy) : (rounds : Nat) → Scan Args
  | 0 => exhaust
  | rounds + 1 => do
    if ← eat '>' then pure .nil
    else if ← eat '*' then .any <$> argItems bound nested rounds
    else
      let sign ← variance
      let type ← reference bound nested
      .typed sign type <$> argItems bound nested rounds

def args (bound : Nat) (nested : Scan ClassTy) : Scan Args := do
  expect '<'
  if ← eat '>' then refuse .noTypeArguments else argItems bound nested bound

def segments (bound : Nat) (nested : Scan ClassTy) : (rounds : Nat) → (slashes : Bool) → Scan ClassTy
  | 0, _ => exhaust
  | rounds + 1, slashes => do
    let name ← identifier bound ['<', '.', ';'] slashes
    let args ← if (← peek) = some '<' then args bound nested else pure .nil
    if ← eat '.' then .outer name args <$> segments bound nested rounds false
    else
      expect ';'
      pure (.last name args)

def classType (bound : Nat) : (depth : Nat) → Scan ClassTy
  | 0 => exhaust
  | depth + 1 => do
    expect 'L'
    segments bound (classType bound depth) bound true

def marked (mark : Char) (item : Scan Ty) : (rounds : Nat) → (before : List Ty) → Scan (List Ty)
  | 0, _ => exhaust
  | rounds + 1, before => do
    if ← eat mark then marked mark item rounds ((← item) :: before)
    else pure before.reverse

def classBound (bound : Nat) (nested : Scan ClassTy) : Scan (Option Ty) := do
  match ← peek with
  | some 'L' | some 'T' | some '[' => some <$> reference bound nested
  | _ => pure none

def typeParameter (bound : Nat) (nested : Scan ClassTy) : Scan TypeParameter := do
  let name ← identifier bound [':'] false
  expect ':'
  let classBound? ← classBound bound nested
  let interfaceBounds ← marked ':' (reference bound nested) bound []
  pure ⟨name, classBound?, interfaceBounds⟩

def typeParameterItems (bound : Nat) (nested : Scan ClassTy) :
    (rounds : Nat) → (before : List TypeParameter) → Scan (List TypeParameter)
  | 0, _ => exhaust
  | rounds + 1, before => do
    if ← eat '>' then pure before.reverse
    else typeParameterItems bound nested rounds ((← typeParameter bound nested) :: before)

def typeParameters (bound : Nat) (nested : Scan ClassTy) : Scan (List TypeParameter) := do
  if ← eat '<' then
    match ← typeParameterItems bound nested bound [] with
    | [] => refuse .noTypeParameters
    | params => pure params
  else pure []

def thrown (bound : Nat) (nested : Scan ClassTy) : Scan Ty := do
  match ← peek with
  | some 'L' => .classType 0 <$> nested
  | some 'T' => .variable 0 <$> typeVariable bound
  | _ => refuse .expectedThrown

def signature (bound : Nat) : Scan MethodTypes := do
  let nested := classType bound bound
  let typeParameters ← typeParameters bound nested
  let parameters ← parameterList bound (type bound nested)
  let result? ← result (type bound nested)
  let throwsTypes ← marked '^' (thrown bound nested) bound []
  finish .trailingAfterSignature
  pure (MethodSignature.types ⟨typeParameters, parameters, result?, throwsTypes⟩)

end Scan

end SymbolCatalog.Signature
