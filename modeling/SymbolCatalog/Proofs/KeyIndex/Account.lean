import SymbolCatalog.Proofs.KeyIndex.Holds

/-! What an index tells, whatever its records are: where the values of a key occur, and which keys
are listed for a file. After a flush that was left half way the two may disagree. -/
namespace SymbolCatalog

@[ext] structure Account (K V : Type) where
  occurs : K → FileId → V → Prop
  lists : FileId → K → Prop

namespace Account
variable {K V : Type}

def none : Account K V := ⟨fun _ _ _ => False, fun _ _ => False⟩

def Shows (a : Account K V) (c : Occurrences V) (key : K) : Prop :=
  ∀ file value, (file, value) ∈ c.pairs ↔ a.occurs key file value

def Lists (a : Account K V) (keys : List K) (file : FileId) : Prop :=
  keys.Nodup ∧ ∀ key, key ∈ keys ↔ a.lists file key

def Told (a : Account K V) (key : K) : Option (Occurrences V) → Prop
  | .none => ∀ file value, ¬ a.occurs key file value
  | some c => c.isEmpty = false ∧ a.Shows c key

def put (a : Account K V) (file : FileId) (entries : List (K × V)) : Account K V where
  occurs key f value := (f = file ∧ (key, value) ∈ entries) ∨
    (a.occurs key f value ∧ ¬ (f = file ∧ (a.lists file key ∨ ∃ v, (key, v) ∈ entries)))
  lists f key := (f = file ∧ ∃ value, (key, value) ∈ entries) ∨ (f ≠ file ∧ a.lists f key)

def overwritten (b a : Account K V) (keys : List K) (files : List FileId) : Account K V where
  occurs key file value := (key ∈ keys ∧ a.occurs key file value) ∨ (key ∉ keys ∧ b.occurs key file value)
  lists file key := (file ∈ files ∧ a.lists file key) ∨ (file ∉ files ∧ b.lists file key)

structure Coded [Wire K] [Wire V] (a : Account K V) : Prop where
  occurring : ∀ key file value, a.occurs key file value → Wire.ReadsBack key ∧ Wire.ReadsBack value
  listed : ∀ file key, a.lists file key → Wire.ReadsBack key

structure Fits (a : Account K V) : Prop where
  values : ∀ key (values : List V), values.Nodup →
    (∀ value ∈ values, ∃ file, a.occurs key file value) → values.length < 2 ^ 64
  keys : ∀ file (keys : List K), keys.Nodup → (∀ key ∈ keys, a.lists file key) → keys.length < 2 ^ 64

structure Among (a : Account K V) (given : List (K × V)) : Prop where
  occurring : ∀ key file value, a.occurs key file value → (key, value) ∈ given
  listed : ∀ file key, a.lists file key → ∃ value, (key, value) ∈ given

theorem Told.shows {a : Account K V} {key : K} {found : Option (Occurrences V)}
    (h : a.Told key found) : a.Shows (found.getD .empty) key := by
  cases found with
  | none => exact fun file value => ⟨fun m => absurd m Occurrences.memEmpty, fun m => absurd m (h file value)⟩
  | some c => exact h.2

theorem Shows.congr {a a' : Account K V} {c : Occurrences V} {key : K} (h : a.Shows c key)
    (same : ∀ file value, a'.occurs key file value ↔ a.occurs key file value) : a'.Shows c key :=
  fun file value => (h file value).trans (same file value).symm

theorem Told.congr {a a' : Account K V} {key : K} {found : Option (Occurrences V)} (h : a.Told key found)
    (same : ∀ file value, a'.occurs key file value ↔ a.occurs key file value) : a'.Told key found := by
  cases found with
  | none => exact fun file value m => h file value ((same file value).1 m)
  | some c => exact ⟨h.1, h.2.congr same⟩

theorem Lists.congr {a a' : Account K V} {keys : List K} {file : FileId} (h : a.Lists keys file)
    (same : ∀ key, a'.lists file key ↔ a.lists file key) : a'.Lists keys file :=
  ⟨h.1, fun key => (h.2 key).trans (same key).symm⟩

theorem Shows.inhabited {a : Account K V} {c : Occurrences V} {key : K} (h : a.Shows c key)
    (full : c.isEmpty = false) : ∃ file value, a.occurs key file value := by
  by_contra none
  simp only [not_exists] at none
  refine Bool.eq_false_iff.1 full (Occurrences.isEmptyIff.2 fun p hp => ?_)
  exact none p.1 p.2 ((h p.1 p.2).1 hp)

theorem Shows.anyFile {a : Account K V} {c : Occurrences V} {key : K} (shows : a.Shows c key)
    {file : FileId} : c.anyFile (· = file) = true ↔ ∃ value, a.occurs key file value := by
  rw [Occurrences.anyFileIff]
  constructor
  · intro ⟨f, value, mem, same⟩
    have same : f = file := by simpa using same
    exact ⟨value, (shows file value).1 (same ▸ mem)⟩
  · intro ⟨value, occurs⟩
    exact ⟨file, value, (shows file value).2 occurs, by simp⟩

theorem putSame {a : Account K V} {file : FileId} {entries : List (K × V)} {key : K} :
    (a.put file entries).lists file key ↔ ∃ value, (key, value) ∈ entries := by
  simp [put]

theorem putOther {a : Account K V} {file f : FileId} {entries : List (K × V)} (other : f ≠ file) :
    (∀ key, (a.put file entries).lists f key ↔ a.lists f key) ∧
      ∀ key value, (a.put file entries).occurs key f value ↔ a.occurs key f value := by
  simp [put, other]

theorem Coded.put [Wire K] [Wire V] {a : Account K V} (coded : a.Coded) (file : FileId)
    {entries : List (K × V)} (new : ∀ p ∈ entries, Wire.ReadsBack p.1 ∧ Wire.ReadsBack p.2) :
    (a.put file entries).Coded where
  occurring key f value h := by
    rcases h with ⟨-, mem⟩ | ⟨old, -⟩
    · exact new _ mem
    · exact coded.occurring key f value old
  listed f key h := by
    rcases h with ⟨-, value, mem⟩ | ⟨-, old⟩
    · exact (new _ mem).1
    · exact coded.listed f key old

theorem Coded.overwritten [Wire K] [Wire V] {a b : Account K V} (coded : b.Coded) (by_ : a.Coded)
    (keys : List K) (files : List FileId) : (b.overwritten a keys files).Coded where
  occurring key file value h := h.elim (fun h => by_.occurring key file value h.2)
    fun h => coded.occurring key file value h.2
  listed file key h := h.elim (fun h => by_.listed file key h.2) fun h => coded.listed file key h.2

theorem Among.fits {a : Account K V} {given : List (K × V)} (among : a.Among given)
    (few : given.length < 2 ^ 64) : a.Fits where
  values key values distinct occur := by
    have drawn : values ⊆ given.map (·.2) := fun value mem =>
      have ⟨file, occurs⟩ := occur value mem
      List.mem_map.2 ⟨_, among.occurring key file value occurs, rfl⟩
    have := distinct.length_le_of_subset drawn
    rw [List.length_map] at this
    omega
  keys file keys distinct listed := by
    have drawn : keys ⊆ given.map (·.1) := fun key mem =>
      have ⟨value, there⟩ := among.listed file key (listed key mem)
      List.mem_map.2 ⟨_, there, rfl⟩
    have := distinct.length_le_of_subset drawn
    rw [List.length_map] at this
    omega

theorem amongNone (given : List (K × V)) : (none : Account K V).Among given :=
  ⟨fun _ _ _ => False.elim, fun _ _ => False.elim⟩

theorem Among.put {a : Account K V} {given : List (K × V)} (among : a.Among given) (file : FileId)
    {entries : List (K × V)} (drawn : ∀ p ∈ entries, p ∈ given) : (a.put file entries).Among given where
  occurring key f value h := by
    rcases h with ⟨-, mem⟩ | ⟨old, -⟩
    · exact drawn _ mem
    · exact among.occurring key f value old
  listed f key h := by
    rcases h with ⟨-, value, mem⟩ | ⟨-, old⟩
    · exact ⟨value, drawn _ mem⟩
    · exact among.listed f key old

theorem Among.overwritten {a b : Account K V} {given : List (K × V)} (among : b.Among given)
    (by_ : a.Among given) (keys : List K) (files : List FileId) : (b.overwritten a keys files).Among given where
  occurring key file value h := h.elim (fun h => by_.occurring key file value h.2)
    fun h => among.occurring key file value h.2
  listed file key h := h.elim (fun h => by_.listed file key h.2) fun h => among.listed file key h.2

theorem overwrittenNothing (b a : Account K V) : b.overwritten a [] [] = b := by
  ext <;> simp [overwritten]

theorem overwrittenKey (b a : Account K V) (keys : List K) (files : List FileId) (key : K) :
    (b.overwritten a keys files).overwritten a [key] [] = b.overwritten a (keys ++ [key]) files := by
  ext <;> simp only [overwritten, List.mem_append, List.mem_singleton, List.not_mem_nil] <;> tauto

theorem overwrittenFile (b a : Account K V) (keys : List K) (files : List FileId) (file : FileId) :
    (b.overwritten a keys files).overwritten a [] [file] = b.overwritten a keys (files ++ [file]) := by
  ext <;> simp only [overwritten, List.mem_append, List.mem_singleton, List.not_mem_nil] <;> tauto

theorem overwrittenBoth (b a : Account K V) (keys : List K) (files : List FileId) :
    (b.overwritten a keys []).overwritten a [] files = b.overwritten a keys files := by
  ext <;> simp [overwritten]

end Account

namespace Contents
variable {K V : Type}

def account (files : Contents K V) : Account K V where
  occurs key file value := (key, value) ∈ files file
  lists file key := ∃ value, (key, value) ∈ files file

theorem accountNone : (none : Contents K V).account = .none := by
  ext <;> simp [account, none, Account.none]

theorem accountPut (files : Contents K V) (file : FileId) (entries : List (K × V)) :
    (files.put file entries).account = files.account.put file entries := by
  ext x f y
  · by_cases same : f = file
    · subst same
      have listed : (x, y) ∈ files f → ∃ v, (x, v) ∈ files f := fun m => ⟨y, m⟩
      simp only [account, Account.put, putSame, true_and]
      tauto
    · simp [account, Account.put, putOther same, same]
  · by_cases same : x = file
    · subst same
      simp [account, Account.put, putSame]
    · simp [account, Account.put, putOther same, same]

theorem Fits.account {files : Contents K V} (fits : files.Fits) : files.account.Fits := ⟨fits.values, fits.keys⟩

theorem Among.fits {files : Contents K V} {given : List (K × V)} (among : files.Among given)
    (few : given.length < 2 ^ 64) : files.Fits :=
  have told : files.account.Among given :=
    ⟨fun _ file _ mem => among file _ mem, fun file _ mem => mem.imp fun _ there => among file _ there⟩
  ⟨(told.fits few).values, (told.fits few).keys⟩

theorem Coded.account [Wire K] [Wire V] {files : Contents K V} (coded : files.Coded) :
    files.account.Coded where
  occurring _ file _ mem := coded file _ mem
  listed file _ mem := mem.elim fun _ mem => (coded file _ mem).1

end Contents

namespace KeyIndex
variable {K V : Type} [DecidableEq K] [DecidableEq V] [Wire K] [Wire V]

def KeyTold (entries : Entries) (a : Account K V) (key : K) : Prop :=
  ∃ found, recordAt (Occurrences V) entries (containerKey key) = .ok found ∧ a.Told key found

def FileTold (entries : Entries) (a : Account K V) (file : FileId) : Prop :=
  ∃ found, recordAt (List K) entries (fileKey file) = .ok found ∧ found ≠ some [] ∧
    a.Lists (found.getD []) file

omit [DecidableEq K] in
theorem KeyTold.congr {entries entries' : Entries} {a a' : Account K V} {key : K} (h : KeyTold entries a key)
    (place : entries'.get? (containerKey key) = entries.get? (containerKey key))
    (same : ∀ file value, a'.occurs key file value ↔ a.occurs key file value) : KeyTold entries' a' key := by
  obtain ⟨found, record, told⟩ := h
  exact ⟨found, (recordAtSame place).trans record, told.congr same⟩

omit [DecidableEq K] [DecidableEq V] [Wire V] in
theorem FileTold.congr {entries entries' : Entries} {a a' : Account K V} {file : FileId} (h : FileTold entries a file)
    (place : entries'.get? (fileKey file) = entries.get? (fileKey file))
    (same : ∀ key, a'.lists file key ↔ a.lists file key) : FileTold entries' a' file := by
  obtain ⟨found, record, full, lists⟩ := h
  exact ⟨found, (recordAtSame place).trans record, full, lists.congr same⟩

/- A key is told by its container if the index has one, and by the store otherwise; a container that
is not to be written agrees with the store. The same holds of the keys of a file. -/
structure Tells (index : KeyIndex K V) (entries : Entries) (a : Account K V) : Prop where
  coded : a.Coded
  shown : ∀ key, index.containers.contains key → Wire.ReadsBack key ∧ a.Shows (index.held key) key
  dirty : ∀ key ∈ index.dirtyKeys, index.containers.contains key
  clean : ∀ key, Wire.ReadsBack key → key ∉ index.dirtyKeys → KeyTold entries a key
  listed : ∀ file keys, index.forward.get? file = some keys → keys ≠ [] ∧ a.Lists keys file
  gone : ∀ file ∈ index.dirtyFiles, index.forward.get? file = none → ∀ key, ¬ a.lists file key
  settled : ∀ file, file ∉ index.dirtyFiles → FileTold entries a file
  keyPlaces : ∀ rest, (entries.get? (containerFamily ++ rest)).isSome →
    ∃ key : K, Wire.ReadsBack key ∧ rest = write key
  filePlaces : ∀ rest, (entries.get? (fileFamily ++ rest)).isSome →
    ∃ file : FileId, fileFamily ++ rest = fileKey file

abbrev Keeps (entries : Entries) (a : Account K V) : Prop := Tells (empty 0) entries a

theorem holdsIff {index : KeyIndex K V} {entries : Entries} {files : Contents K V} :
    Holds index entries files ↔
      Tells index entries files.account ∧ entries.get? versionKey = some (stamp index.version) := by
  have told : ∀ key found, Told files key found ↔ files.account.Told key found := by
    intro key found
    cases found <;> exact Iff.rfl
  have none : ∀ file, files file = [] ↔ ∀ key, ¬ files.account.lists file key := by
    intro file
    constructor
    · intro gone key
      simp [Contents.account, gone]
    · intro gone
      refine List.eq_nil_iff_forall_not_mem.2 fun p mem => gone p.1 ⟨p.2, mem⟩
  constructor
  · intro h
    refine ⟨?_, h.stamped⟩
    constructor
    case coded => exact Contents.Coded.account h.coded
    case shown => exact h.shown
    case dirty => exact h.dirty
    case clean =>
      intro key reads out
      obtain ⟨found, record, shows⟩ := h.clean key reads out
      exact ⟨found, record, (told key found).1 shows⟩
    case listed => exact h.listed
    case gone => exact fun file dirty unknown => (none file).1 (h.gone file dirty unknown)
    case settled => exact h.settled
    case keyPlaces => exact h.keyPlaces
    case filePlaces => exact h.filePlaces
  · intro ⟨h, stamped⟩
    constructor
    case coded => exact fun file p mem => h.coded.occurring p.1 file p.2 mem
    case shown => exact h.shown
    case dirty => exact h.dirty
    case clean =>
      intro key reads out
      obtain ⟨found, record, shows⟩ := h.clean key reads out
      exact ⟨found, record, (told key found).2 shows⟩
    case listed => exact h.listed
    case gone => exact fun file dirty unknown => (none file).2 (h.gone file dirty unknown)
    case settled => exact h.settled
    case stamped => exact stamped
    case keyPlaces => exact h.keyPlaces
    case filePlaces => exact h.filePlaces

theorem Tells.elsewhere {index : KeyIndex K V} {entries entries' : Entries} {a : Account K V}
    (h : Tells index entries a)
    (keys : ∀ rest, entries'.get? (containerFamily ++ rest) = entries.get? (containerFamily ++ rest))
    (lists : ∀ rest, entries'.get? (fileFamily ++ rest) = entries.get? (fileFamily ++ rest)) :
    Tells index entries' a := by
  refine { h with clean := ?_, settled := ?_, keyPlaces := ?_, filePlaces := ?_ }
  · exact fun key reads out => (h.clean key reads out).congr (keys _) fun _ _ => Iff.rfl
  · exact fun file out => (h.settled file out).congr (lists _) fun _ => Iff.rfl
  · intro rest there
    rw [keys] at there
    exact h.keyPlaces rest there
  · intro rest there
    rw [lists] at there
    exact h.filePlaces rest there

theorem Holds.elsewhere {index : KeyIndex K V} {entries entries' : Entries} {files : Contents K V}
    (h : Holds index entries files) (version : entries'.get? versionKey = entries.get? versionKey)
    (keys : ∀ rest, entries'.get? (containerFamily ++ rest) = entries.get? (containerFamily ++ rest))
    (lists : ∀ rest, entries'.get? (fileFamily ++ rest) = entries.get? (fileFamily ++ rest)) :
    Holds index entries' files := by
  rw [holdsIff] at h ⊢
  exact ⟨h.1.elsewhere keys lists, version.trans h.2⟩

theorem Holds.tells {index : KeyIndex K V} {entries : Entries} {files : Contents K V}
    (h : Holds index entries files) : Tells index entries files.account := (holdsIff.1 h).1

section
variable {index : KeyIndex K V} {entries : Entries} {a : Account K V}

theorem keepsIff {version : UInt32} : Tells (empty version) entries a ↔ Keeps entries a :=
  ⟨fun h => { h with }, fun h => { h with }⟩

theorem Tells.keeps (h : Tells index entries a) (keys : index.dirtyKeys = [])
    (files : index.dirtyFiles = []) : Keeps entries a where
  coded := h.coded
  shown _ there := by simp [empty, Dict.contains] at there
  dirty _ hk := absurd hk List.not_mem_nil
  clean key reads _ := h.clean key reads (keys ▸ List.not_mem_nil)
  listed _ _ known := by simp [empty] at known
  gone _ hf := absurd hf List.not_mem_nil
  settled file _ := h.settled file (files ▸ List.not_mem_nil)
  keyPlaces := h.keyPlaces
  filePlaces := h.filePlaces

theorem keepsNothing (keys : ∀ rest, entries.get? (containerFamily ++ rest) = none)
    (files : ∀ rest, entries.get? (fileFamily ++ rest) = none) :
    Keeps entries (Account.none : Account K V) where
  coded := ⟨fun _ _ _ => False.elim, fun _ _ => False.elim⟩
  shown _ there := by simp [empty, Dict.contains] at there
  dirty _ hk := absurd hk List.not_mem_nil
  clean key _ _ := ⟨none, recordAtNone (keys _), fun _ _ => id⟩
  listed _ _ known := by simp [empty] at known
  gone _ hf := absurd hf List.not_mem_nil
  settled file _ := ⟨none, recordAtNone (files _), by simp, List.nodup_nil, by simp [Account.none]⟩
  keyPlaces rest there := by simp [keys rest] at there
  filePlaces rest there := by simp [files rest] at there

end
end KeyIndex
end SymbolCatalog
