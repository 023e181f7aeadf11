import SymbolCatalog.Distinct
import SymbolCatalog.Text.Quoted
import SymbolCatalog.Wire.Basic

/-! References to types. `TypeRef.ofText` reads rendered text such as `int[][]` or `String...`, and
`TypeRef.render` writes it. `TypeRef.withDepth` alone changes the depth without looking at the
variadic mark. -/
namespace SymbolCatalog.Text

-- The property `White_Space`, the same code points in every version of Unicode since 4.1.
def isBlank (c : Char) : Bool :=
  let n := c.toNat
  (9 ≤ n && n ≤ 13) || n == 0x20 || n == 0x85 || n == 0xA0 || n == 0x1680 ||
    (0x2000 ≤ n && n ≤ 0x200A) || n == 0x2028 || n == 0x2029 || n == 0x202F ||
    n == 0x205F || n == 0x3000

def trimEnd (cs : List Char) : List Char := (cs.reverse.dropWhile isBlank).reverse

def trim (cs : List Char) : List Char := trimEnd (cs.dropWhile isBlank)

end SymbolCatalog.Text

namespace SymbolCatalog

structure TypeRef where
  text : String
  depth : UInt8
  varargs : Bool
  annotations : List String
  deriving DecidableEq, Repr, Inhabited

namespace TypeRef

def ofName (text : String) : TypeRef := ⟨text, 0, false, []⟩

def void : TypeRef := ofName "void"

def withDepth (t : TypeRef) (depth : UInt8) : TypeRef := { t with depth }

def asVarargs (t : TypeRef) : TypeRef := { t with varargs := 0 < t.depth }

def ofParts (text : String) (depth : UInt8) (varargs : Bool) (annotations : List String) :
    TypeRef :=
  ⟨text, depth, varargs && 0 < depth, annotations⟩

def isVoid (t : TypeRef) : Bool := t.depth = 0 && t.text = "void"

def deeper (depth : UInt8) : UInt8 := if depth = 255 then 255 else depth + 1

def takeBrackets (depth : UInt8) : List Char → UInt8 × List Char
  | ']' :: '[' :: rest => takeBrackets (deeper depth) rest
  | rest => (depth, rest)

/-- Reads rendered text: white space around it does not count, one `...` at the end is a variadic
dimension, and each `[]` before it is one more dimension. -/
def ofText (rendered : String) : TypeRef :=
  let reversed := (Text.trim rendered.toList).reverse
  let (varargs, start, body) : Bool × UInt8 × List Char :=
    match reversed with
    | '.' :: '.' :: '.' :: rest => (true, 1, rest)
    | rest => (false, 0, rest)
  let (depth, element) := takeBrackets start body
  ⟨String.ofList element.reverse, depth, varargs, []⟩

def annotate (t : TypeRef) (names : List String) : TypeRef :=
  { t with annotations := addAllNew t.annotations names }

def brackets (t : TypeRef) : Nat := if t.varargs then t.depth.toNat - 1 else t.depth.toNat

def render (t : TypeRef) : String :=
  String.join (t.annotations.map fun name => "@" ++ name ++ " ") ++ t.text ++
    String.join (List.replicate t.brackets "[]") ++ (if t.varargs then "..." else "")

def inspect (t : TypeRef) : String :=
  Text.Inspect.record "TypeRef"
    [("text", Text.quoted t.text), ("array_depth", toString t.depth.toNat),
     ("varargs", Text.Inspect.truth t.varargs),
     ("annotations", Text.Inspect.sequence (t.annotations.map Text.quoted))]

/-- The four fields in order, taken as they are: a variadic mark without an array stays. -/
instance : Wire TypeRef where
  write t := write t.text ++ write t.depth ++ write t.varargs ++ write t.annotations
  read := do
    let text ← read
    let depth ← read
    let varargs ← read
    let annotations ← read
    pure ⟨text, depth, varargs, annotations⟩

end TypeRef

structure Annotation where
  name : String
  typeUse : Bool
  deriving DecidableEq, Repr, Inhabited

instance : Wire Annotation where
  write a := write a.name ++ write a.typeUse
  read := do
    let name ← read
    let typeUse ← read
    pure ⟨name, typeUse⟩

end SymbolCatalog
