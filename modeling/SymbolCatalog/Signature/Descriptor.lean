import SymbolCatalog.Signature.Cursor
import SymbolCatalog.Signature.Syntax

/-! Reading raw method descriptors such as `(ILjava/lang/String;[J)V`. `MethodDescriptor.parse`
gives the syntax of a descriptor, and refuses every text that is not the written form of one. -/
namespace SymbolCatalog.Signature
open Reader

def readDims (depth : UInt8) : Cursor → Except Fault (UInt8 × Cursor)
  | ⟨offset, '[' :: rest⟩ =>
    if depth = 255 then .error ⟨offset + 1, .tooManyDimensions⟩
    else readDims (depth + 1) ⟨offset + 1, rest⟩
  | c => .ok (depth, c)
termination_by c => c.rest.length

def readDepth : Reader UInt8 := readDims 0

/-- A field type: array dimensions, then a letter, then for a class its name. An unknown letter
is refused at the byte after its first. -/
def readField : Reader Ty := do
  let depth ← readDepth
  match ← peek with
  | none => refuse .missingFieldType
  | some 'L' =>
    advance
    let name ← readName [';'] true
    expect ';'
    pure (.classType depth (.last name .nil))
  | some tag =>
    match Primitive.ofTag? tag with
    | some p => advance; pure (.primitive depth p)
    | none => fun c => .error ⟨c.offset + 1, .unknownFieldTag (shown tag)⟩

/-- Types up to the closing parenthesis, with those before them in reverse. Each type takes at
least one character, so `fuel` need not exceed the number of characters left. -/
def readParameters (item : Reader Ty) : (fuel : Nat) → (before : List Ty) → Reader (List Ty)
  | 0, before => do
    if ← eat ')' then pure before.reverse else refuse .unterminatedParameters
  | fuel + 1, before => do
    if ← eat ')' then pure before.reverse
    else if ← atEnd then refuse .unterminatedParameters
    else readParameters item fuel ((← item) :: before)

def readParameterList (item : Reader Ty) : Reader (List Ty) := do
  expect '('
  fun c => readParameters item c.rest.length [] c

def readResult (item : Reader Ty) : Reader (Option Ty) := do
  if ← eat 'V' then pure none else some <$> item

def readEnd (cause : Cause) : Reader Unit := do
  unless ← atEnd do refuse cause

def readDescriptor : Reader MethodDescriptor := do
  let parameters ← readParameterList readField
  let result? ← readResult readField
  readEnd .trailingAfterReturn
  pure ⟨parameters, result?⟩

def MethodDescriptor.parse (text : String) : Except FormatError MethodDescriptor :=
  readDescriptor.run text

end SymbolCatalog.Signature
