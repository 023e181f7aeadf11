import SymbolCatalog.Signature.Error

/-! Reading a text from left to right, one character of lookahead, with the byte offset for
refusals. -/
namespace SymbolCatalog.Signature

structure Cursor where
  offset : Nat
  rest : List Char
  deriving DecidableEq, Repr

def Cursor.start (text : String) : Cursor := ⟨0, text.toList⟩

def Cursor.skip (c : Cursor) : Cursor :=
  match c.rest with
  | [] => c
  | next :: rest => ⟨c.offset + next.utf8Size, rest⟩

abbrev Reader (α : Type) := StateT Cursor (Except Fault) α

namespace Reader

def refuse {α : Type} (cause : Cause) : Reader α := fun c => .error ⟨c.offset, cause⟩

def peek : Reader (Option Char) := fun c => .ok (c.rest.head?, c)

def atEnd : Reader Bool := fun c => .ok (c.rest.isEmpty, c)

def advance : Reader Unit := fun c => .ok ((), c.skip)

def eat (want : Char) : Reader Bool := fun c =>
  if c.rest.head? = some want then .ok (true, c.skip) else .ok (false, c)

def expect (want : Char) : Reader Unit := fun c =>
  if c.rest.head? = some want then .ok ((), c.skip)
  else .error ⟨c.offset, .expected want (c.rest.head?.map shown)⟩

def run {α : Type} (reader : Reader α) (text : String) : Except FormatError α :=
  match reader (.start text) with
  | .ok (a, _) => .ok a
  | .error fault => .error ⟨text, fault.offset, fault.cause⟩

end Reader

/-- The characters that structure signatures; no name contains one, except as a separator of
packages in the name of a class. -/
def reserved : List Char := ['.', ';', '[', '/', '<', '>', ':']

def scanName (stops : List Char) (slashes : Bool) : Cursor → Except Fault (List Char × Cursor)
  | ⟨offset, []⟩ => .error ⟨offset, .unterminatedName⟩
  | ⟨offset, c :: rest⟩ =>
    if c ∈ stops then .ok ([], ⟨offset, c :: rest⟩)
    else if c ∈ reserved && !(c = '/' && slashes) then
      .error ⟨offset, .reservedInName (shown c)⟩
    else do
      let (name, after) ← scanName stops slashes ⟨offset + c.utf8Size, rest⟩
      pure (c :: name, after)
termination_by c => c.rest.length

def readName (stops : List Char) (slashes : Bool) : Reader String := fun c => do
  match ← scanName stops slashes c with
  | ([], after) => throw ⟨after.offset, .emptyName⟩
  | (name, after) => pure (String.ofList name, after)

end SymbolCatalog.Signature
