import SymbolCatalog.Store.Basic

/-! The place of a snapshot file: its directory, the file itself, and the temporary file beside it.
-/
namespace SymbolCatalog

inductive PathContent where
  | absent
  | directory
  | file (bytes : Bytes)
  deriving DecidableEq, Repr

inductive DiskCall where
  | createParent
  | writeTemporary
  | rename
  deriving DecidableEq, Repr

structure Site where
  parent : Bool
  snapshot : PathContent
  temporary : PathContent
  refused : DiskCall → Option IoKind

namespace Site

def bare : Site := ⟨false, .absent, .absent, fun _ => none⟩

def attempt (call : DiskCall) : StoreCall Site Unit := do
  match (← getThe Site).refused call with
  | some kind => throw (.io kind)
  | none => pure ()

def createParent : StoreCall Site Unit := do
  attempt .createParent
  modifyThe Site ({ · with parent := true })

def writeTemporary (bytes : Bytes) : StoreCall Site Unit := do
  attempt .writeTemporary
  let site ← getThe Site
  if !site.parent then throw (.io .notFound)
  else if site.temporary = .directory then throw (.io .isADirectory)
  else set { site with temporary := .file bytes }

def rename : StoreCall Site Unit := do
  attempt .rename
  let site ← getThe Site
  if site.snapshot = .directory then throw (.io .isADirectory)
  else set { site with snapshot := site.temporary, temporary := .absent }

end Site

end SymbolCatalog
