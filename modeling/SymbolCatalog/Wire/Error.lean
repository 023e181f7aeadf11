import SymbolCatalog.Text.Quoted
import SymbolCatalog.Text.Utf8

/-! Why bytes could not be read as a value, and the text that says so. -/
namespace SymbolCatalog.Wire

inductive IntWidth where
  | u32
  | u64
  | u128
  | length
  | reserved
  deriving DecidableEq, Repr

def IntWidth.name : IntWidth → String
  | .u32 => "U32"
  | .u64 => "U64"
  | .u128 => "U128"
  | .length => "Usize"
  | .reserved => "Reserved"

inductive ReadError where
  | unexpectedEnd (missing : Nat)
  | invalidBool (found : UInt8)
  | invalidOption (found : UInt8)
  | invalidUtf8 (fault : Text.Utf8.Malformed)
  | invalidWidth (expected found : IntWidth)
  deriving DecidableEq, Repr

open Text.Inspect in
def ReadError.inspect : ReadError → String
  | .unexpectedEnd missing => record "UnexpectedEnd" [("additional", toString missing)]
  | .invalidBool found => wrapped "InvalidBooleanValue" (toString found.toNat)
  | .invalidOption found =>
    record "UnexpectedVariant" [("type_name", "\"Option<T>\""),
      ("allowed", record "Range" [("min", "0"), ("max", "1")]), ("found", toString found.toNat)]
  | .invalidUtf8 fault =>
    record "Utf8" [("inner", record "Utf8Error" [("valid_up_to", toString fault.validUpTo),
      ("error_len", optional (fault.faultLength.map toString))])]
  | .invalidWidth expected found =>
    record "InvalidIntegerType" [("expected", expected.name), ("found", found.name)]

def ReadError.message (e : ReadError) : String := "Bincode decoding error: " ++ e.inspect

end SymbolCatalog.Wire
