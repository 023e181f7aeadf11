import SymbolCatalog.Text.Utf8

/-! Why a descriptor or signature is refused, and where. Offsets count UTF-8 bytes. Where a message
shows what was found, it shows the first byte of the character there, as the character with that
code. -/
namespace SymbolCatalog.Signature

inductive Cause where
  | expected (want : Char) (found? : Option Char)
  | unterminatedName
  | emptyName
  | reservedInName (found : Char)
  | unterminatedParameters
  | tooManyDimensions
  | missingFieldType
  | unknownFieldTag (found : Char)
  | missingType
  | unknownTypeTag (found : Char)
  | expectedReference
  | expectedThrown
  | noTypeParameters
  | noTypeArguments
  | trailingAfterReturn
  | trailingAfterSignature
  | arity (declared : Nat) (descriptor : String) (actual : Nat)
  deriving DecidableEq, Repr

def apostrophed (c : Char) : String := "'" ++ c.toString ++ "'"

def Cause.detail : Cause → String
  | .expected want (some found) =>
    "expected " ++ apostrophed want ++ ", found " ++ apostrophed found
  | .expected want none => "expected " ++ apostrophed want ++ ", found end of input"
  | .unterminatedName => "unterminated identifier"
  | .emptyName => "empty identifier"
  | .reservedInName found => "unexpected " ++ apostrophed found ++ " in identifier"
  | .unterminatedParameters => "unterminated parameter list"
  | .tooManyDimensions => "too many array dimensions"
  | .missingFieldType => "missing field type"
  | .unknownFieldTag found => "unexpected descriptor tag " ++ apostrophed found
  | .missingType => "missing type"
  | .unknownTypeTag found => "unexpected type tag " ++ apostrophed found
  | .expectedReference => "expected reference type"
  | .expectedThrown => "expected class or type variable after " ++ apostrophed '^'
  | .noTypeParameters => "empty type parameter list"
  | .noTypeArguments => "empty type argument list"
  | .trailingAfterReturn => "trailing characters after return type"
  | .trailingAfterSignature => "trailing characters after method signature"
  | .arity declared descriptor actual =>
    s!"signature declares {declared} parameters but descriptor `{descriptor}` declares {actual}"

structure Fault where
  offset : Nat
  cause : Cause
  deriving DecidableEq, Repr

structure FormatError where
  input : String
  offset : Nat
  cause : Cause
  deriving DecidableEq, Repr

def FormatError.message (e : FormatError) : String :=
  s!"{e.cause.detail} at offset {e.offset} in `{e.input}`"

/-- What a message shows of a character: its first byte, as the character with that code. -/
def shown (c : Char) : Char := .ofNat (Text.Utf8.lead c).toNat

end SymbolCatalog.Signature
