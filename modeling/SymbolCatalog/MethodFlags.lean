import SymbolCatalog.Text.Quoted
import SymbolCatalog.Wire.Basic

/-! Facets of a method packed into one byte. The positions are part of the stored format; the two
upper bits have no meaning and are kept as they are. -/
namespace SymbolCatalog

structure MethodFlags where
  bits : UInt8
  deriving DecidableEq, Repr, Inhabited

namespace MethodFlags

def constructorBit : UInt8 := 0x01
def varargsBit : UInt8 := 0x02
def annotationBit : UInt8 := 0x04
def deprecatedBit : UInt8 := 0x08
def deprecatedAnnotationBit : UInt8 := 0x10
def genericBit : UInt8 := 0x20

def has (flags : MethodFlags) (mask : UInt8) : Bool := flags.bits &&& mask != 0

def isConstructor (flags : MethodFlags) : Bool := flags.has constructorBit
def isVarargs (flags : MethodFlags) : Bool := flags.has varargsBit
def isAnnotationMethod (flags : MethodFlags) : Bool := flags.has annotationBit
def isDeprecated (flags : MethodFlags) : Bool := flags.has deprecatedBit
def hasDeprecatedAnnotation (flags : MethodFlags) : Bool := flags.has deprecatedAnnotationBit
def isGeneric (flags : MethodFlags) : Bool := flags.has genericBit

def bitIf (condition : Bool) (mask : UInt8) : UInt8 := if condition then mask else 0

def pack (isConstructor isVarargs isAnnotationMethod isDeprecated hasDeprecatedAnnotation : Bool) :
    MethodFlags :=
  ⟨bitIf isConstructor constructorBit ||| bitIf isVarargs varargsBit |||
    bitIf isAnnotationMethod annotationBit ||| bitIf isDeprecated deprecatedBit |||
    bitIf hasDeprecatedAnnotation deprecatedAnnotationBit⟩

def withGeneric (flags : MethodFlags) (generic : Bool) : MethodFlags :=
  ⟨if generic then flags.bits ||| genericBit else flags.bits &&& ~~~genericBit⟩

def fields (flags : MethodFlags) : List (String × String) :=
  [("bits", Text.hexByte flags.bits),
   ("constructor", Text.Inspect.truth flags.isConstructor),
   ("varargs", Text.Inspect.truth flags.isVarargs),
   ("annotation", Text.Inspect.truth flags.isAnnotationMethod),
   ("deprecated", Text.Inspect.truth flags.isDeprecated),
   ("deprecated_annotation", Text.Inspect.truth flags.hasDeprecatedAnnotation),
   ("generic_signature", Text.Inspect.truth flags.isGeneric)]

def inspect (flags : MethodFlags) : String := Text.Inspect.record "MethodFlags" flags.fields

def inspectLines (flags : MethodFlags) : String :=
  Text.Inspect.recordLines "MethodFlags" flags.fields

instance : Wire MethodFlags := ⟨fun flags => write flags.bits, MethodFlags.mk <$> read⟩

end MethodFlags
end SymbolCatalog
