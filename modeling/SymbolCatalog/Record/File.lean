import SymbolCatalog.NameTable
import SymbolCatalog.Record.Basic
import SymbolCatalog.Tree.Basic

/-! Whole trees as bytes: four magic bytes, the version in two bytes, and the record of the root.
Trees are written in the newest version; every version is read, with ids in the order of the
records. -/
namespace SymbolCatalog

namespace Record

inductive Fault where
  | shortHeader (length : Nat)
  | badMagic
  | unsupportedVersion (found : Nat)
  | unreadable (e : Wire.ReadError)
  | trailing (count : Nat)
  | unknownKind (tag : UInt8)
  | noName (kind : Kind)
  | noType (kind : Kind)
  | wrongFlags (kind : Kind) (flags : UInt8)
  | grow (e : Tree.GrowError)
  deriving DecidableEq, Repr

def Fault.message : Fault → String
  | .shortHeader length => corrupt s!"{length} bytes is too short for a descriptor header"
  | .badMagic => "Invalid descriptor data: expected DSCR magic bytes"
  | .unsupportedVersion found =>
    s!"Unsupported descriptor format version: {found} (supported 1..=2)"
  | .unreadable e => e.message
  | .trailing count => corrupt s!"{count} trailing bytes after root record"
  | .unknownKind tag => corrupt s!"unknown descriptor kind {tag.toNat}"
  | .noName kind => corrupt s!"{kind.name} record without a name"
  | .noType kind => corrupt s!"{kind.name} record without a type"
  | .wrongFlags kind flags => corrupt s!"{kind.name} record with flags {Text.hexByte flags}"
  | .grow e => corrupt e.message
where
  corrupt (what : String) : String := "Corrupt descriptor data: " ++ what

def magic : Bytes := [0x44, 0x53, 0x43, 0x52]

def current : RecordVersion := .two

abbrev Interning := ExceptT Fault (StateM NameTable)

def internName (name : String) : Interning String := do
  modify (·.intern name)
  pure name

/-- Enters the texts of a type reference; the variadic mark is dropped where there is no array. -/
def internType (t : TypeRef) : Interning TypeRef := do
  modify (·.internAll (t.text :: t.annotations))
  pure (.ofParts t.text t.depth t.varargs t.annotations)

def requireName (kind : Kind) : Option String → Interning String
  | some name => internName name
  | none => throw (.noName kind)

def requireType (kind : Kind) : Option TypeRef → Interning TypeRef
  | some type => internType type
  | none => throw (.noType kind)

def payload (f : RecordFields) : Interning Payload := do
  match Kind.ofTag? f.kind with
  | none => throw (.unknownKind f.kind)
  | some kind =>
    match kind with
    | .file => .file <$> f.name?.mapM internName
    | .classDecl => return .classDecl (← requireName kind f.name?) f.flags
    | .field =>
      let name ← requireName kind f.name?
      let type ← requireType kind f.type?
      pure (.field name type f.flags f.default?)
    | .method | .annotationMethod =>
      let flags : MethodFlags := ⟨f.flags⟩
      if flags.isAnnotationMethod != (kind == .annotationMethod) then
        throw (.wrongFlags kind f.flags)
      let name? ← f.name?.mapM internName
      let type ← requireType kind f.type?
      pure (.method ⟨name?, flags, type, f.default?⟩)
    | .parameterList => pure .parameterList
    | .parameter =>
      let name? ← f.name?.mapM internName
      return .parameter name? (← requireType kind f.type?)
    | .modifierList =>
      modify (·.internAll (f.annotations.map (·.name)))
      pure (.modifierList f.mask f.annotations)
    | .throwsList => .throwsList <$> f.types.mapM internType

mutual

def attach (t : Tree) (parent : NodeId) : Record → Interning Tree
  | .mk fields children => do
    let payload ← payload fields
    match t.addChild parent payload with
    | .ok (id, t) => attachAll t id children
    | .error e => throw (.grow e)

def attachAll (t : Tree) (parent : NodeId) : List Record → Interning Tree
  | [] => pure t
  | r :: rest => do attachAll (← attach t parent r) parent rest

end

def tree : Record → Interning Tree
  | .mk fields children => do attachAll (.single (← payload fields)) .root children

def readVersion (bytes : Bytes) : Except Fault Nat :=
  if bytes.length < 6 then .error (.shortHeader bytes.length)
  else if bytes.take 4 ≠ magic then .error .badMagic
  else .ok (Bytes.toNatLE ((bytes.drop 4).take 2))

def ofFile (bytes : Bytes) : Except Fault Record := do
  let number ← readVersion bytes
  match RecordVersion.ofNumber? number with
  | none => throw (.unsupportedVersion number)
  | some version =>
    match decode version (bytes.drop 6) with
    | .error e => throw (.unreadable e)
    | .ok (record, []) => pure record
    | .ok (_, rest) => throw (.trailing rest.length)

def toFile (version : RecordVersion) (record : Record) : Bytes :=
  magic ++ Bytes.ofNatLE 2 version.number ++ record.encode version

end Record

namespace Tree

def payload (t : Tree) (id : NodeId) (h : id.index < t.size) : Payload :=
  have h : id.index < t.arena.slots.size := h
  t.arena.slots[id.index].payload

def recordFrom (t : Tree) (id : NodeId) (h : id.index < t.size) : Record :=
  .mk (t.payload id h).fields
    ((t.children id).attach.map fun ⟨child, hc⟩ => recordFrom t child (mem_children.1 hc).1)
termination_by t.size - id.index
decreasing_by exact descent hc

def record (t : Tree) : Record := t.recordFrom .root t.nonempty

def encode (t : Tree) : Bytes := t.record.toFile Record.current

/-- The tree that bytes store. The names in it are entered into the table, also those that were
met before a fault. -/
def decode (bytes : Bytes) (table : NameTable) : Except Record.Fault Tree × NameTable :=
  match Record.ofFile bytes with
  | .error e => (.error e, table)
  | .ok record => record.tree.run table

end Tree
end SymbolCatalog
