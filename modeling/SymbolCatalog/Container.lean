import SymbolCatalog.Dict
import SymbolCatalog.FileId

/-! The container of one key: its values, each with the ascending list of its files. Up to two
values stand in a list; the third one moves them all to a dictionary, where they stay until nothing
is left. -/
namespace SymbolCatalog

def visitAll {σ α : Type} (visitor : σ → α → Bool × σ) : σ → List α → Bool × σ
  | s, [] => (true, s)
  | s, a :: rest =>
    match visitor s a with
    | (true, s) => visitAll visitor s rest
    | (false, s) => (false, s)

/-- Looks for a file from `low` on and before `high`. The error is the place where it is missing. -/
def FileId.search (file : FileId) (files : List FileId) (low high : Nat) (inside : high ≤ files.length) :
    Except Nat Nat :=
  if more : low < high then
    let middle := (low + high) / 2
    if files[middle].raw < file.raw then file.search files (middle + 1) high inside
    else if file.raw < files[middle].raw then file.search files low middle (by omega)
    else .ok middle
  else .error low
termination_by high - low

def FileId.insertSorted (file : FileId) (files : List FileId) : Bool × List FileId :=
  match file.search files 0 files.length (Nat.le_refl _) with
  | .ok _ => (false, files)
  | .error place => (true, files.insertIdx place file)

def FileId.removeSorted (file : FileId) (files : List FileId) : Bool × List FileId :=
  match file.search files 0 files.length (Nat.le_refl _) with
  | .ok place => (true, files.eraseIdx place)
  | .error _ => (false, files)

variable {V : Type}

def withoutFile (file : FileId) : List (V × List FileId) → Nat × List (V × List FileId)
  | [] => (0, [])
  | e :: rest =>
    let taken := file.removeSorted e.2
    let others := withoutFile file rest
    (taken.1.toNat + others.1, if taken.2.isEmpty then others.2 else (e.1, taken.2) :: others.2)

def pairsOf (entries : List (V × List FileId)) : List (FileId × V) :=
  entries.flatMap fun e => e.2.map (·, e.1)

theorem withoutFile_keys (file : FileId) (entries : List (V × List FileId)) :
    ((withoutFile file entries).2.map (·.1)).Sublist (entries.map (·.1)) := by
  induction entries with
  | nil => exact .slnil
  | cons e rest ih =>
    simp only [withoutFile]
    split
    · exact ih.cons e.1
    · exact ih.cons_cons e.1

inductive Storage (V : Type) where
  | inline (entries : List (V × List FileId))
  | map (entries : Dict V (List FileId))
  deriving DecidableEq, Repr

def inlineCapacity : Nat := 2

namespace Storage

def entries : Storage V → List (V × List FileId)
  | inline entries => entries
  | map dict => dict.pairs

def isInline : Storage V → Bool
  | inline _ => true
  | map _ => false

def removeFile (file : FileId) : Storage V → Nat × Storage V
  | inline entries => ((withoutFile file entries).1, inline (withoutFile file entries).2)
  | map dict =>
    ((withoutFile file dict.pairs).1,
      map ⟨(withoutFile file dict.pairs).2, dict.distinct.sublist (withoutFile_keys file dict.pairs)⟩)

variable [DecidableEq V]

def files? (value : V) : Storage V → Option (List FileId)
  | inline entries => (entries.find? (·.1 = value)).map (·.2)
  | map dict => dict.get? value

def change (value : V) (files : List FileId) : Storage V → Storage V
  | inline entries => inline (Dict.putPair value files entries)
  | map dict => map (dict.insert value files)

def push (value : V) (files : List FileId) : Storage V → Storage V
  | inline entries =>
    if entries.length < inlineCapacity then inline (entries ++ [(value, files)])
    else map ((Dict.ofPairs entries).insert value files)
  | map dict => map (dict.insert value files)

def drop (value : V) : Storage V → Storage V
  | inline entries => inline (entries.eraseP (·.1 = value))
  | map dict => map (dict.erase value)

end Storage

structure Container (V : Type) where
  storage : Storage V
  len : Nat
  deriving DecidableEq, Repr

namespace Container

def new : Container V := ⟨.inline [], 0⟩

def entries (c : Container V) : List (V × List FileId) := c.storage.entries

def isInline (c : Container V) : Bool := c.storage.isInline

def isEmpty (c : Container V) : Bool := c.len = 0

def valueCount (c : Container V) : Nat :=
  match c.storage with
  | .inline entries => entries.length
  | .map dict => dict.size

def pairs (c : Container V) : List (FileId × V) := pairsOf c.entries

def values (c : Container V) : List V := c.entries.map (·.1)

def anyFile (c : Container V) (accept : Scope) : Bool := c.entries.any (·.2.any accept)

def visit {σ : Type} (c : Container V) (visitor : σ → FileId × V → Bool × σ) (start : σ) : Bool × σ :=
  visitAll visitor start c.pairs

def toRecord (c : Container V) : List (V × List FileId) := c.entries

def resetIfEmpty (c : Container V) : Container V :=
  if c.len = 0 && !c.isInline then { c with storage := .inline [] } else c

def removeFile (c : Container V) (file : FileId) : Nat × Container V :=
  let rest := c.storage.removeFile file
  (rest.1, resetIfEmpty ⟨rest.2, c.len - rest.1⟩)

variable [DecidableEq V]

def contains (c : Container V) (value : V) : Bool :=
  match c.storage with
  | .inline entries => entries.any (·.1 = value)
  | .map dict => dict.contains value

def filesOf (c : Container V) (value : V) : List FileId := (c.storage.files? value).getD []

def add (c : Container V) (file : FileId) (value : V) : Bool × Container V :=
  match c.storage.files? value with
  | some files =>
    let more := file.insertSorted files
    (more.1, ⟨c.storage.change value more.2, if more.1 then c.len + 1 else c.len⟩)
  | none => (true, ⟨c.storage.push value [file], c.len + 1⟩)

def remove (c : Container V) (file : FileId) (value : V) : Bool × Container V :=
  match c.storage.files? value with
  | some files =>
    let rest := file.removeSorted files
    let storage := if rest.2.isEmpty then c.storage.drop value else c.storage.change value rest.2
    (rest.1, if rest.1 then resetIfEmpty ⟨storage, c.len - 1⟩ else ⟨storage, c.len⟩)
  | none => (false, c)

def fromRecord (record : List (V × List FileId)) : Container V :=
  record.foldl (fun c e => e.2.foldl (fun c file => (c.add file e.1).2) c) new

end Container
end SymbolCatalog
