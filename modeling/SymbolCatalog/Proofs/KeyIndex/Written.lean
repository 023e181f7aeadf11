import SymbolCatalog.Proofs.KeyIndex.Change

/-! Writing one record: the store then tells what the index told of that key or file, and nothing
else of the index or of the store is concerned. Once every key and file is written, the store tells
all of it by itself. -/
namespace SymbolCatalog.KeyIndex
variable {K V : Type} {index : KeyIndex K V} {entries : Entries} {a : Account K V}

theorem valuesFew {c : Occurrences V} {key : K} (h : a.Shows c key) (fits : a.Fits) :
    c.entries.length < 2 ^ 64 := by
  have := fits.values key (c.entries.map (·.1)) c.sound.grouped.distinct fun value mem => by
    obtain ⟨e, he, rfl⟩ := List.mem_map.1 mem
    obtain ⟨file, hf⟩ := List.exists_mem_of_ne_nil _ (c.sound.grouped.occupied e he)
    exact ⟨file, (h file e.1).1 (Occurrences.memPairs.2 ⟨e, he, rfl, hf⟩)⟩
  simpa using this

variable [Wire K] [Wire V]

theorem valuesRead {c : Occurrences V} {key : K} (h : a.Shows c key)
    (coded : a.Coded) : ∀ e ∈ c.entries, Wire.ReadsBack e.1 := by
  intro e he
  obtain ⟨file, hf⟩ := List.exists_mem_of_ne_nil _ (c.sound.grouped.occupied e he)
  exact (coded.occurring key file _ ((h file e.1).1 (Occurrences.memPairs.2 ⟨e, he, rfl, hf⟩))).2

variable [DecidableEq K] [DecidableEq V]

def keyRecord (index : KeyIndex K V) (key : K) : Option Bytes :=
  if (index.held key).isEmpty then none else some (write (index.held key))

def fileRecord (index : KeyIndex K V) (file : FileId) : Option Bytes :=
  (index.forward.get? file).map write

theorem Tells.keyRecord (h : Tells index entries a) (fits : a.Fits) {key : K}
    (there : index.containers.contains key) :
    KeyTold (entries.assign (containerKey key) (index.keyRecord key)) a key := by
  have shows := (h.shown key there).2
  have get : (entries.assign (containerKey key) (index.keyRecord key)).get? (containerKey key) =
      index.keyRecord key := by rw [Entries.getAssign, if_pos rfl]
  by_cases empty : (index.held key).isEmpty
  · refine ⟨none, recordAtNone (get.trans (if_pos empty)), fun file value m => ?_⟩
    exact Occurrences.isEmptyIff.1 empty _ ((shows file value).2 m)
  · have decoded := decodeRead
      ((index.held key).readStored (valuesRead shows h.coded) (valuesFew shows fits) [])
    have shows : a.Shows (Occurrences.ofList (index.held key).entries) key := by
      intro file value
      rw [Occurrences.memOfList, ← Occurrences.memPairs]
      exact shows file value
    refine ⟨_, recordAtSome (get.trans (if_neg empty)) decoded, ?_, shows⟩
    refine Bool.eq_false_iff.2 fun none => empty (Occurrences.isEmptyIff.2 fun p hp => ?_)
    refine Occurrences.isEmptyIff.1 none p ?_
    rwa [Occurrences.memOfList, ← Occurrences.memPairs]

theorem Tells.fileRecord (h : Tells index entries a) (fits : a.Fits) {file : FileId}
    (gone : index.forward.get? file = none → ∀ key, ¬ a.lists file key) :
    FileTold (entries.assign (fileKey file) (index.fileRecord file)) a file := by
  have get : (entries.assign (fileKey file) (index.fileRecord file)).get? (fileKey file) =
      (index.forward.get? file).map write := by rw [Entries.getAssign, if_pos rfl, KeyIndex.fileRecord]
  cases known : index.forward.get? file with
  | none =>
    rw [known] at get
    exact ⟨none, recordAtNone get, by simp, List.nodup_nil, by simp [gone known]⟩
  | some keys =>
    rw [known] at get
    obtain ⟨full, lists⟩ := h.listed file keys known
    have reads : ∀ key ∈ keys, Wire.ReadsBack key :=
      fun key mem => h.coded.listed file key ((lists.2 key).1 mem)
    have short := fits.keys file keys lists.1 fun key mem => (lists.2 key).1 mem
    have decoded := decodeRead (Wire.readsBack_list reads short [])
    exact ⟨some keys, recordAtSome get decoded, by simpa using full, lists⟩

theorem Tells.keyWritten (h : Tells index entries a) {a' : Account K V} {key : K} {value? : Option Bytes}
    (coded : a'.Coded) (reads : Wire.ReadsBack key)
    (told : KeyTold (entries.assign (containerKey key) value?) a' key)
    (held : index.containers.contains key → a'.Shows (index.held key) key)
    (others : ∀ k, k ≠ key → a'.occurs k = a.occurs k) (lists : a'.lists = a.lists) :
    Tells (index.keyWritten key) (entries.assign (containerKey key) value?) a' := by
  have other : ∀ place, containerKey key ≠ place →
      (entries.assign (containerKey key) value?).get? place = entries.get? place := by
    intro place ne
    rw [Entries.getAssign, if_neg ne]
  constructor
  case coded => exact coded
  case shown =>
    intro k there
    by_cases same : k = key
    · subst same
      exact ⟨reads, held there⟩
    · obtain ⟨readsK, shows⟩ := h.shown k there
      exact ⟨readsK, shows.congr fun file value => by rw [others k same]⟩
  case dirty => exact fun k hk => h.dirty k (List.mem_filter.1 hk).1
  case clean =>
    intro k readsK out
    by_cases same : k = key
    · subst same
      exact told
    · have out : k ∉ index.dirtyKeys := fun m => out (List.mem_filter.2 ⟨m, by simpa using same⟩)
      have ne : containerKey key ≠ containerKey k :=
        fun e => same (containerKeyInjective readsK reads e.symm)
      exact (h.clean k readsK out).congr (other _ ne) fun file value => by rw [others k same]
  case listed =>
    intro file keys known
    obtain ⟨full, listsKeys⟩ := h.listed file keys known
    exact ⟨full, listsKeys.congr fun k => by rw [lists]⟩
  case gone =>
    intro file dirty unknown k
    rw [lists]
    exact h.gone file dirty unknown k
  case settled =>
    intro file out
    exact (h.settled file out).congr (other _ (containerNeFile key file)) fun k => by rw [lists]
  case keyPlaces =>
    intro rest there
    by_cases same : containerKey key = containerFamily ++ rest
    · exact ⟨key, reads, (List.append_cancel_left same).symm⟩
    · rw [other _ same] at there
      exact h.keyPlaces rest there
  case filePlaces =>
    intro rest there
    have ne : containerKey key ≠ fileFamily ++ rest := by
      simp [containerKey, containerFamily, fileFamily]
    rw [other _ ne] at there
    exact h.filePlaces rest there

theorem Tells.fileWritten (h : Tells index entries a) {a' : Account K V} {file : FileId}
    {value? : Option Bytes} (coded : a'.Coded)
    (told : FileTold (entries.assign (fileKey file) value?) a' file)
    (known : ∀ keys, index.forward.get? file = some keys → keys ≠ [] ∧ a'.Lists keys file)
    (others : ∀ f, f ≠ file → a'.lists f = a.lists f) (occurs : a'.occurs = a.occurs) :
    Tells (index.fileWritten file) (entries.assign (fileKey file) value?) a' := by
  have other : ∀ place, fileKey file ≠ place →
      (entries.assign (fileKey file) value?).get? place = entries.get? place := by
    intro place ne
    rw [Entries.getAssign, if_neg ne]
  constructor
  case coded => exact coded
  case shown =>
    intro key there
    obtain ⟨reads, shows⟩ := h.shown key there
    exact ⟨reads, shows.congr fun f value => by rw [occurs]⟩
  case dirty => exact h.dirty
  case clean =>
    intro key reads out
    exact (h.clean key reads out).congr (other _ (containerNeFile key file).symm) fun f value => by rw [occurs]
  case listed =>
    intro f keys there
    by_cases same : f = file
    · subst same
      exact known keys there
    · obtain ⟨full, lists⟩ := h.listed f keys there
      exact ⟨full, lists.congr fun key => by rw [others f same]⟩
  case gone =>
    intro f hf unknown key
    obtain ⟨mem, ne⟩ := List.mem_filter.1 hf
    rw [others f (by simpa using ne)]
    exact h.gone f mem unknown key
  case settled =>
    intro f out
    by_cases same : f = file
    · subst same
      exact told
    · have out : f ∉ index.dirtyFiles := fun m => out (List.mem_filter.2 ⟨m, by simpa using same⟩)
      have ne : fileKey file ≠ fileKey f := fun e => same (fileKeyInjective e.symm)
      exact (h.settled f out).congr (other _ ne) fun key => by rw [others f same]
  case keyPlaces =>
    intro rest there
    have ne : fileKey file ≠ containerFamily ++ rest := by
      simp [fileKey, containerFamily, fileFamily]
    rw [other _ ne] at there
    exact h.keyPlaces rest there
  case filePlaces =>
    intro rest there
    by_cases same : fileKey file = fileFamily ++ rest
    · exact ⟨file, same.symm⟩
    · rw [other _ same] at there
      exact h.filePlaces rest there

theorem freshStored (version : UInt32) :
    Stored version (Entries.empty.insert versionKey (stamp version))
      (Contents.none : Contents K V) := by
  have other : ∀ place, versionKey ≠ place →
      (Entries.empty.insert versionKey (stamp version)).get? place = none := by
    intro place ne
    rw [Entries.getInsert, if_neg ne]
    rfl
  refine holdsIff.2 ⟨?_, by rw [Entries.getInsert, if_pos rfl]; rfl⟩
  rw [Contents.accountNone]
  refine keepsIff.2 (keepsNothing (fun rest => other _ ?_) fun rest => other _ ?_)
  · simp [versionKey, containerFamily]
  · simp [versionKey, fileFamily]

end SymbolCatalog.KeyIndex
