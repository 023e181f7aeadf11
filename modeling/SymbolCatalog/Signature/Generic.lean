import SymbolCatalog.Signature.Descriptor

/-! Reading generic method signatures. Classes nest through their type arguments, so the readers of
types take the reader of a nested class as an argument. Fuel counts how deep classes nest, and each
level has consumed its letter. -/
namespace SymbolCatalog.Signature
open Reader

def readVariable : Reader String := do
  expect 'T'
  let name ← readName [';'] false
  expect ';'
  pure name

def readTy (nested : Reader ClassTy) : Reader Ty := do
  let depth ← readDepth
  match ← peek with
  | none => refuse .missingType
  | some 'L' => .classType depth <$> nested
  | some 'T' => .variable depth <$> readVariable
  | some tag =>
    match Primitive.ofTag? tag with
    | some p => advance; pure (.primitive depth p)
    | none => refuse (.unknownTypeTag (shown tag))

def readReference (nested : Reader ClassTy) : Reader Ty := do
  match ← peek with
  | some 'L' => .classType 0 <$> nested
  | some 'T' => .variable 0 <$> readVariable
  | some '[' => readTy nested
  | _ => refuse .expectedReference

def readVariance : Reader Variance := do
  if ← eat '+' then pure .covariant
  else if ← eat '-' then pure .contravariant
  else pure .exact

def readArgItems (nested : Reader ClassTy) : (fuel : Nat) → Reader Args
  | 0 => do if ← eat '>' then pure .nil else refuse .expectedReference
  | fuel + 1 => do
    if ← eat '>' then pure .nil
    else if ← eat '*' then .any <$> readArgItems nested fuel
    else
      let variance ← readVariance
      let type ← readReference nested
      .typed variance type <$> readArgItems nested fuel

def readArgs (nested : Reader ClassTy) : Reader Args := do
  expect '<'
  if ← eat '>' then refuse .noTypeArguments
  else fun c => readArgItems nested c.rest.length c

/-- A name with type arguments, and the names nested in it, up to the semicolon. Only the first
name may hold separators of packages. -/
def readSegments (nested : Reader ClassTy) : (fuel : Nat) → (slashes : Bool) → Reader ClassTy
  | 0, _ => refuse .unterminatedName
  | fuel + 1, slashes => do
    let name ← readName ['<', '.', ';'] slashes
    let args ← if (← peek) = some '<' then readArgs nested else pure .nil
    if ← eat '.' then .outer name args <$> readSegments nested fuel false
    else
      expect ';'
      pure (.last name args)

def readClass : (fuel : Nat) → Reader ClassTy
  | 0 => expect 'L' *> refuse .unterminatedName
  | fuel + 1 => do
    expect 'L'
    fun c => readSegments (readClass fuel) c.rest.length true c

def readMarked (mark : Char) (item : Reader Ty) : (fuel : Nat) → (before : List Ty) → Reader (List Ty)
  | 0, before => pure before.reverse
  | fuel + 1, before => do
    if ← eat mark then readMarked mark item fuel ((← item) :: before)
    else pure before.reverse

def readAllMarked (mark : Char) (item : Reader Ty) : Reader (List Ty) :=
  fun c => readMarked mark item c.rest.length [] c

def readClassBound (nested : Reader ClassTy) : Reader (Option Ty) := do
  match ← peek with
  | some 'L' | some 'T' | some '[' => some <$> readReference nested
  | _ => pure none

def readTypeParameter (nested : Reader ClassTy) : Reader TypeParameter := do
  let name ← readName [':'] false
  expect ':'
  let classBound? ← readClassBound nested
  let interfaceBounds ← readAllMarked ':' (readReference nested)
  pure ⟨name, classBound?, interfaceBounds⟩

def readTypeParameterItems (nested : Reader ClassTy) :
    (fuel : Nat) → (before : List TypeParameter) → Reader (List TypeParameter)
  | 0, before => do
    if ← eat '>' then pure before.reverse else refuse .unterminatedName
  | fuel + 1, before => do
    if ← eat '>' then pure before.reverse
    else readTypeParameterItems nested fuel ((← readTypeParameter nested) :: before)

def readTypeParameters (nested : Reader ClassTy) : Reader (List TypeParameter) := do
  if ← eat '<' then
    match ← fun c => readTypeParameterItems nested c.rest.length [] c with
    | [] => refuse .noTypeParameters
    | params => pure params
  else pure []

def readThrown (nested : Reader ClassTy) : Reader Ty := do
  match ← peek with
  | some 'L' => .classType 0 <$> nested
  | some 'T' => .variable 0 <$> readVariable
  | _ => refuse .expectedThrown

def readSignature (nested : Reader ClassTy) : Reader MethodSignature := do
  let typeParameters ← readTypeParameters nested
  let parameters ← readParameterList (readTy nested)
  let result? ← readResult (readTy nested)
  let throwsTypes ← readAllMarked '^' (readThrown nested)
  readEnd .trailingAfterSignature
  pure ⟨typeParameters, parameters, result?, throwsTypes⟩

def MethodSignature.parse (text : String) : Except FormatError MethodSignature :=
  (readSignature (readClass text.length)).run text

end SymbolCatalog.Signature
