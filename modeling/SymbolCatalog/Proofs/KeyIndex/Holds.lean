import SymbolCatalog.KeyIndex.Basic
import SymbolCatalog.Proofs.KeyIndex.Pairs
import SymbolCatalog.Proofs.Store.Lookup

/-! What the files contribute, and what it means that an index and its store hold it together. -/
namespace SymbolCatalog

abbrev Contents (K V : Type) := FileId → List (K × V)

namespace Contents
variable {K V : Type}

def none : Contents K V := fun _ => []

def put (files : Contents K V) (file : FileId) (entries : List (K × V)) : Contents K V :=
  fun f => if f = file then entries else files f

def Coded [Wire K] [Wire V] (files : Contents K V) : Prop :=
  ∀ file, ∀ p ∈ files file, Wire.ReadsBack p.1 ∧ Wire.ReadsBack p.2

structure Fits (files : Contents K V) : Prop where
  values : ∀ key (values : List V), values.Nodup →
    (∀ value ∈ values, ∃ file, (key, value) ∈ files file) → values.length < 2 ^ 64
  keys : ∀ file (keys : List K), keys.Nodup →
    (∀ key ∈ keys, ∃ value, (key, value) ∈ files file) → keys.length < 2 ^ 64

theorem putSame {files : Contents K V} {file : FileId} {entries : List (K × V)} :
    files.put file entries file = entries := if_pos rfl

theorem putOther {files : Contents K V} {file other : FileId} {entries : List (K × V)}
    (h : other ≠ file) : files.put file entries other = files other := if_neg h

def Among (files : Contents K V) (given : List (K × V)) : Prop := ∀ file, ∀ p ∈ files file, p ∈ given

theorem amongNone (given : List (K × V)) : Among none given := fun _ _ hp => absurd hp List.not_mem_nil

theorem Among.put {files : Contents K V} {given : List (K × V)} (among : files.Among given)
    (file : FileId) {entries : List (K × V)} (h : ∀ p ∈ entries, p ∈ given) :
    (files.put file entries).Among given := by
  intro f p hp
  by_cases same : f = file
  · subst same
    rw [putSame] at hp
    exact h p hp
  · rw [putOther same] at hp
    exact among f p hp

end Contents

namespace KeyIndex
variable {K V : Type}

def Shows (c : Occurrences V) (files : Contents K V) (key : K) : Prop :=
  ∀ file value, (file, value) ∈ c.pairs ↔ (key, value) ∈ files file

def Lists (keys : List K) (entries : List (K × V)) : Prop :=
  keys.Nodup ∧ ∀ key, key ∈ keys ↔ ∃ value, (key, value) ∈ entries

def Told (files : Contents K V) (key : K) : Option (Occurrences V) → Prop
  | none => ∀ file value, (key, value) ∉ files file
  | some c => c.isEmpty = false ∧ Shows c files key

theorem Lists.emptyIff {keys : List K} {entries : List (K × V)} (h : Lists keys entries) :
    keys = [] ↔ entries = [] := by
  constructor
  · intro same
    subst same
    refine List.eq_nil_iff_forall_not_mem.2 fun p hp => ?_
    exact List.not_mem_nil ((h.2 p.1).2 ⟨p.2, hp⟩)
  · intro same
    subst same
    refine List.eq_nil_iff_forall_not_mem.2 fun key hk => ?_
    obtain ⟨value, hv⟩ := (h.2 key).1 hk
    exact List.not_mem_nil hv

variable [Wire K] [Wire V]

def recordAt (α : Type) [Wire α] (entries : Entries) (place : Bytes) :
    Except StorageError (Option α) :=
  (entries.get? place).mapM decodeRecord

/-! The places of the three families. -/

theorem decodeRead {α : Type} [Wire α] {a : α} {bytes : Bytes}
    (h : (read : Wire.Reader α) (bytes ++ []) = .ok (a, [])) : decodeRecord bytes = .ok a := by
  rw [List.append_nil] at h
  unfold decodeRecord Wire.decode?
  rw [h]

theorem containerKeyInjective {a b : K} (ha : Wire.ReadsBack a) (hb : Wire.ReadsBack b)
    (h : containerKey a = containerKey b) : a = b := by
  have same : write a ++ [] = write b ++ [] := by
    simpa [containerKey, containerFamily] using h
  have := (ha []).symm.trans ((congrArg _ same).trans (hb []))
  exact congrArg Prod.fst (Except.ok.inj this)

theorem wordBytesInjective {a b : UInt32}
    (h : Bytes.ofNatLE 4 a.toNat = Bytes.ofNatLE 4 b.toNat) : a = b := by
  have boundA : a.toNat < 256 ^ 4 := a.toNat_lt
  have boundB : b.toNat < 256 ^ 4 := b.toNat_lt
  have same := congrArg Bytes.toNatLE h
  rw [Bytes.toNatLE_ofNatLE_of_lt boundA, Bytes.toNatLE_ofNatLE_of_lt boundB] at same
  exact UInt32.toNat_inj.1 same

theorem fileKeyInjective {a b : FileId} (h : fileKey a = fileKey b) : a = b := by
  cases a
  cases b
  exact congrArg _ (wordBytesInjective (List.append_cancel_left h))

theorem containerNeFile (key : K) (file : FileId) : containerKey key ≠ fileKey file := by
  simp [containerKey, containerFamily, fileKey, fileFamily]

theorem recordAtSome {α : Type} [Wire α] {entries : Entries} {place bytes : Bytes} {a : α}
    (there : entries.get? place = some bytes) (decoded : decodeRecord bytes = .ok a) :
    recordAt α entries place = .ok (some a) := by
  unfold recordAt
  rw [there]
  change (decodeRecord bytes >>= fun a => pure (some a)) = _
  rw [decoded]
  rfl

theorem recordAtNone {α : Type} [Wire α] {entries : Entries} {place : Bytes}
    (absent : entries.get? place = none) : recordAt α entries place = .ok none := by
  unfold recordAt
  rw [absent]
  rfl

theorem recordAtCases {α : Type} [Wire α] {entries : Entries} {place : Bytes} {found : Option α}
    (h : recordAt α entries place = .ok found) :
    (entries.get? place = none ∧ found = none) ∨
      ∃ bytes a, entries.get? place = some bytes ∧ decodeRecord bytes = .ok a ∧ found = some a := by
  cases hb : entries.get? place with
  | none =>
    rw [recordAtNone hb] at h
    exact .inl ⟨rfl, (Except.ok.inj h).symm⟩
  | some bytes =>
    cases hd : (decodeRecord bytes : Except StorageError α) with
    | error e =>
      unfold recordAt at h
      rw [hb] at h
      change (decodeRecord bytes >>= fun a => pure (some a)) = _ at h
      rw [hd] at h
      cases h
    | ok a =>
      rw [recordAtSome hb hd] at h
      exact .inr ⟨bytes, a, rfl, hd, (Except.ok.inj h).symm⟩

theorem recordAtSame {α : Type} [Wire α] {entries entries' : Entries} {place : Bytes}
    (same : entries'.get? place = entries.get? place) :
    recordAt α entries' place = recordAt α entries place := by
  unfold recordAt
  rw [same]

def Beside (entries entries' : Entries) : Prop :=
  ∀ place, place.head? ≠ some 0x01 → place.head? ≠ some 0x02 → entries'.get? place = entries.get? place

theorem besideKey (entries : Entries) (key : K) (value? : Option Bytes) :
    Beside entries (entries.assign (containerKey key) value?) := by
  intro place other _
  rw [Entries.getAssign, if_neg]
  exact fun same => other (congrArg List.head? same).symm

theorem besideFile (entries : Entries) (file : FileId) (value? : Option Bytes) :
    Beside entries (entries.assign (fileKey file) value?) := by
  intro place _ other
  rw [Entries.getAssign, if_neg]
  exact fun same => other (congrArg List.head? same).symm

theorem Beside.then {one two three : Entries} (first : Beside one two) (second : Beside two three) :
    Beside one three :=
  fun place key file => (second place key file).trans (first place key file)

variable [DecidableEq K] [DecidableEq V]

def KeyStored (entries : Entries) (files : Contents K V) (key : K) : Prop :=
  ∃ found, recordAt (Occurrences V) entries (containerKey key) = .ok found ∧ Told files key found

def FileStored (entries : Entries) (files : Contents K V) (file : FileId) : Prop :=
  ∃ found, recordAt (List K) entries (fileKey file) = .ok found ∧ found ≠ some [] ∧
    Lists (found.getD []) (files file)

structure Holds (index : KeyIndex K V) (entries : Entries) (files : Contents K V) : Prop where
  coded : files.Coded
  shown : ∀ key, index.containers.contains key → Wire.ReadsBack key ∧ Shows (index.held key) files key
  dirty : ∀ key ∈ index.dirtyKeys, index.containers.contains key
  clean : ∀ key, Wire.ReadsBack key → key ∉ index.dirtyKeys → KeyStored entries files key
  listed : ∀ file keys, index.forward.get? file = some keys → keys ≠ [] ∧ Lists keys (files file)
  gone : ∀ file ∈ index.dirtyFiles, index.forward.get? file = none → files file = []
  settled : ∀ file, file ∉ index.dirtyFiles → FileStored entries files file
  stamped : entries.get? versionKey = some (stamp index.version)
  keyPlaces : ∀ rest, (entries.get? (containerFamily ++ rest)).isSome →
    ∃ key : K, Wire.ReadsBack key ∧ rest = write key
  filePlaces : ∀ rest, (entries.get? (fileFamily ++ rest)).isSome →
    ∃ file : FileId, fileFamily ++ rest = fileKey file

abbrev Stored (version : UInt32) (entries : Entries) (files : Contents K V) : Prop :=
  Holds (empty version) entries files

end KeyIndex
end SymbolCatalog
