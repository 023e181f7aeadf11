import SymbolCatalog.Tree.Payload

/-! The stored form of a declaration tree, record by record, in one shape for all kinds. The first
version of the format stores no annotations of type references. -/
namespace SymbolCatalog

inductive RecordVersion where
  | one
  | two
  deriving DecidableEq, Repr, Inhabited

def RecordVersion.number : RecordVersion → Nat
  | one => 1
  | two => 2

def RecordVersion.ofNumber? : Nat → Option RecordVersion
  | 1 => some one
  | 2 => some two
  | _ => none

structure RecordFields where
  kind : UInt8
  flags : UInt8 := 0
  name? : Option String := none
  type? : Option TypeRef := none
  mask : UInt32 := 0
  annotations : List Annotation := []
  types : List TypeRef := []
  default? : Option String := none
  deriving DecidableEq, Repr, Inhabited

inductive Record where
  | mk (fields : RecordFields) (children : List Record)
  deriving Repr, Inhabited

def Payload.fields (p : Payload) : RecordFields :=
  match p with
  | .file package? => { kind := p.kind.tag, name? := package? }
  | .classDecl name flags => { kind := p.kind.tag, name? := some name, flags }
  | .field name type flags initializer? =>
    { kind := p.kind.tag, name? := some name, type? := some type, flags, default? := initializer? }
  | .method m =>
    { kind := p.kind.tag, flags := m.flags.bits, name? := m.name?, type? := some m.returnType
      default? := m.default? }
  | .parameterList => { kind := p.kind.tag }
  | .parameter name? type => { kind := p.kind.tag, name?, type? := some type }
  | .modifierList mask annotations => { kind := p.kind.tag, mask, annotations }
  | .throwsList types => { kind := p.kind.tag, types }

namespace Record

open Wire

def writeType : RecordVersion → TypeRef → Bytes
  | .one, t => write t.text ++ write t.depth ++ write t.varargs
  | .two, t => write t

def readType : RecordVersion → Reader TypeRef
  | .one => do
    let text ← read
    let depth ← read
    let varargs ← read
    pure ⟨text, depth, varargs, []⟩
  | .two => read

def writeHead (v : RecordVersion) (f : RecordFields) : Bytes :=
  write f.kind ++ write f.flags ++ write f.name? ++ writeOption (writeType v) f.type? ++
    write f.mask ++ write f.annotations ++ writeList (writeType v) f.types

mutual

def encode (v : RecordVersion) : Record → Bytes
  | .mk fields children =>
    writeHead v fields ++ (writeVarint children.length ++ encodeAll v children) ++
      write fields.default?

def encodeAll (v : RecordVersion) : List Record → Bytes
  | [] => []
  | r :: rest => encode v r ++ encodeAll v rest

end

def readHead (v : RecordVersion) : Reader RecordFields := do
  let kind ← read
  let flags ← read
  let name? ← read
  let type? ← readOption (readType v)
  let mask ← read
  let annotations ← read
  let types ← readList (readType v)
  pure { kind, flags, name?, type?, mask, annotations, types }

/-- Reads a record in which records nest at most `fuel` deep. Each level takes at least one byte,
so where as much fuel as bytes is used up nothing is left to read. -/
def readRecord (v : RecordVersion) : (fuel : Nat) → Reader Record
  | 0 => throw (.unexpectedEnd 1)
  | fuel + 1 => do
    let fields ← readHead v
    let children ← readList (readRecord v fuel)
    let default? ← read
    pure (.mk { fields with default? } children)

def decode (v : RecordVersion) (bytes : Bytes) : Except ReadError (Record × Bytes) :=
  readRecord v bytes.length bytes

end Record
end SymbolCatalog
