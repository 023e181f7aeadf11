import SymbolCatalog.Proofs.KeyIndex.Account

/-! Changes of what an index holds in memory, if the keys concerned are held and the keys that were
listed for the file are known. -/
namespace SymbolCatalog.KeyIndex
variable {K V : Type} [DecidableEq K]

theorem containsInsert {α : Type} {dict : Dict K α} {key k : K} {value : α} :
    (dict.insert key value).contains k ↔ k = key ∨ dict.contains k := by
  simp only [Dict.contains, Dict.get?_insert]
  by_cases h : key = k
  · simp [h]
  · simp [h, Ne.symm h]

/- The index after some of its containers were changed: only those keys are new among the held and
the changed ones. -/
structure Touched (index index' : KeyIndex K V) (keys : K → Prop) : Prop where
  held : ∀ key, index'.containers.contains key ↔ keys key ∨ index.containers.contains key
  dirty : ∀ key, key ∈ index'.dirtyKeys ↔ keys key ∨ key ∈ index.dirtyKeys
  forward : index'.forward = index.forward
  files : index'.dirtyFiles = index.dirtyFiles
  version : index'.version = index.version

theorem heldEdit (index : KeyIndex K V) (key k : K) (change : Occurrences V → Occurrences V) :
    (index.edit key change).held k = if key = k then change (index.held key) else index.held k := by
  unfold held edit
  rw [Dict.get?_insert]
  split <;> rfl

theorem touchedEdit (index : KeyIndex K V) (key : K) (change : Occurrences V → Occurrences V) :
    Touched index (index.edit key change) (· = key) where
  held _ := containsInsert
  dirty k := by simp [edit, or_comm]
  forward := rfl
  files := rfl
  version := rfl

theorem Touched.then {first second third : KeyIndex K V} {a b : K → Prop}
    (one : Touched first second a) (two : Touched second third b) :
    Touched first third fun key => b key ∨ a key where
  held key := by rw [two.held, one.held, or_assoc]
  dirty key := by rw [two.dirty, one.dirty, or_assoc]
  forward := two.forward.trans one.forward
  files := two.files.trans one.files
  version := two.version.trans one.version

theorem Touched.congr {index index' : KeyIndex K V} {a b : K → Prop} (h : Touched index index' a)
    (same : ∀ key, b key ↔ a key) : Touched index index' b := by
  obtain rfl : b = a := funext fun key => propext (same key)
  exact h

theorem touchedNothing (index : KeyIndex K V) : Touched index index fun _ => False where
  held _ := by simp
  dirty _ := by simp
  forward := rfl
  files := rfl
  version := rfl

theorem listsEntries (entries : List (K × V)) : Lists (addAllNew [] (entries.map (·.1))) entries := by
  refine ⟨nodup_addAllNew List.nodup_nil _, fun key => ?_⟩
  simp

theorem touchedWithdraw (index : KeyIndex K V) (file : FileId) (keys : List K) :
    Touched index (index.withdraw file keys) (· ∈ keys) := by
  induction keys generalizing index with
  | nil => exact (touchedNothing index).congr fun _ => by simp
  | cons key keys ih =>
    have step := (touchedEdit index key fun c => (c.removeFile file).2).then (ih _)
    exact step.congr fun k => by simp [or_comm]

theorem heldWithdraw {index : KeyIndex K V} {file : FileId} {keys : List K} {key : K} :
    (index.withdraw file keys).held key =
      if key ∈ keys then ((index.held key).removeFile file).2 else index.held key := by
  induction keys generalizing index with
  | nil => rfl
  | cons first keys ih =>
    rw [withdraw, List.foldl_cons, ← withdraw, ih, heldEdit]
    by_cases h : first = key
    · subst h
      simp only [if_true, List.mem_cons, true_or, Occurrences.removeFileTwice, ite_self]
    · simp only [if_neg h, List.mem_cons, Ne.symm h, false_or]

theorem memWithdraw {index : KeyIndex K V} {file f : FileId} {keys : List K} {key : K} {value : V} :
    (f, value) ∈ ((index.withdraw file keys).held key).pairs ↔
      (f, value) ∈ (index.held key).pairs ∧ ¬ (key ∈ keys ∧ f = file) := by
  rw [heldWithdraw]
  by_cases among : key ∈ keys
  · rw [if_pos among, Occurrences.memRemoveFile]
    simp [among]
  · rw [if_neg among]
    simp [among]

variable [DecidableEq V]

def valuesOf (entries : List (K × V)) (key : K) : List V := (entries.filter (·.1 = key)).map (·.2)

omit [DecidableEq V] in
theorem memValuesOf {entries : List (K × V)} {key : K} {value : V} :
    value ∈ valuesOf entries key ↔ (key, value) ∈ entries := by
  simp [valuesOf]

def enter (index : KeyIndex K V) (file : FileId) (entries : List (K × V)) : KeyIndex K V :=
  entries.foldl (fun index e => index.edit e.1 (·.insert file e.2)) index

theorem touchedEnter (index : KeyIndex K V) (file : FileId) (entries : List (K × V)) :
    Touched index (index.enter file entries) fun key => ∃ value, (key, value) ∈ entries := by
  induction entries generalizing index with
  | nil => exact (touchedNothing index).congr fun _ => by simp
  | cons e entries ih =>
    have step := (touchedEdit index e.1 (·.insert file e.2)).then (ih _)
    refine step.congr fun k => ?_
    simp only [List.mem_cons]
    constructor
    · intro h
      obtain ⟨value, rfl | m⟩ := h
      · exact .inr rfl
      · exact .inl ⟨value, m⟩
    · intro h
      obtain ⟨value, m⟩ | rfl := h
      · exact ⟨value, .inr m⟩
      · exact ⟨e.2, .inl rfl⟩

theorem heldEnter {index : KeyIndex K V} {file : FileId} {entries : List (K × V)} {key : K} :
    (index.enter file entries).held key = (valuesOf entries key).foldl (·.insert file ·) (index.held key) := by
  induction entries generalizing index with
  | nil => rfl
  | cons e entries ih =>
    rw [enter, List.foldl_cons, ← enter, ih, heldEdit]
    by_cases h : e.1 = key
    · subst h
      simp [valuesOf]
    · simp [valuesOf, h]

theorem memEnter {index : KeyIndex K V} {file f : FileId} {entries : List (K × V)} {key : K}
    {value : V} : (f, value) ∈ ((index.enter file entries).held key).pairs ↔
      (f = file ∧ (key, value) ∈ entries) ∨ (f, value) ∈ (index.held key).pairs := by
  rw [heldEnter, Occurrences.memInsertValues, memValuesOf]

/-! What replacing does, part by part. -/

theorem replaceEq (index : KeyIndex K V) (file : FileId) (previous : List K) (new : List (K × V)) :
    index.replace file previous new =
      { (index.withdraw file (addAllNew previous (addAllNew [] (new.map (·.1))))).enter file new with
        forward :=
          if (addAllNew [] (new.map (·.1))).isEmpty then index.forward.erase file
          else index.forward.insert file (addAllNew [] (new.map (·.1)))
        dirtyFiles := addNew index.dirtyFiles file } := by
  have touched := (touchedWithdraw index file
    (addAllNew previous (addAllNew [] (new.map (·.1))))).then (touchedEnter _ file new)
  rw [← touched.forward, ← touched.files]
  rfl

theorem touchedReplace (index : KeyIndex K V) (file : FileId) (previous : List K)
    (new : List (K × V)) : Touched index
      ((index.withdraw file (addAllNew previous (addAllNew [] (new.map (·.1))))).enter file new)
      (· ∈ addAllNew previous (new.map (·.1))) := by
  refine ((touchedWithdraw index file _).then (touchedEnter _ file new)).congr fun key => ?_
  rw [← (listsEntries new).2 key]
  simp only [mem_addAllNew]
  tauto

theorem containsReplace {index : KeyIndex K V} {file : FileId} {previous : List K}
    {new : List (K × V)} {key : K} : (index.replace file previous new).containers.contains key ↔
      key ∈ addAllNew previous (new.map (·.1)) ∨ index.containers.contains key := by
  rw [replaceEq]
  exact (touchedReplace index file previous new).held key

theorem dirtyReplace {index : KeyIndex K V} {file : FileId} {previous : List K}
    {new : List (K × V)} {key : K} : key ∈ (index.replace file previous new).dirtyKeys ↔
      key ∈ addAllNew previous (new.map (·.1)) ∨ key ∈ index.dirtyKeys := by
  rw [replaceEq]
  exact (touchedReplace index file previous new).dirty key

theorem dirtyFilesReplace {index : KeyIndex K V} {file f : FileId} {previous : List K}
    {new : List (K × V)} : f ∈ (index.replace file previous new).dirtyFiles ↔
      f ∈ index.dirtyFiles ∨ f = file := by
  rw [replaceEq]
  exact mem_addNew

theorem forwardReplace {index : KeyIndex K V} {file f : FileId} {previous : List K}
    {new : List (K × V)} : (index.replace file previous new).forward.get? f =
      if f = file then if new = [] then none else some (addAllNew [] (new.map (·.1)))
      else index.forward.get? f := by
  have empty : (addAllNew [] (new.map (·.1))).isEmpty ↔ new = [] :=
    List.isEmpty_iff.trans (listsEntries new).emptyIff
  simp only [replaceEq, empty]
  split
  · simp only [Dict.get?_erase, eq_comm]
  · simp only [Dict.get?_insert, eq_comm]

theorem memReplace {index : KeyIndex K V} {file f : FileId} {previous : List K}
    {new : List (K × V)} {key : K} {value : V} :
    (f, value) ∈ ((index.replace file previous new).held key).pairs ↔
      (f = file ∧ (key, value) ∈ new) ∨
      ((f, value) ∈ (index.held key).pairs ∧ ¬ (key ∈ addAllNew previous (new.map (·.1)) ∧ f = file)) := by
  rw [replaceEq]
  refine memEnter.trans (or_congr_right ?_)
  rw [memWithdraw]
  simp

theorem heldReplace {index : KeyIndex K V} {file : FileId} {previous : List K} {new : List (K × V)}
    (all : ∀ key value, (file, value) ∈ (index.held key).pairs → key ∈ previous) (key : K) :
    (index.replace file previous new).held key = (index.held key).exchange file (valuesOf new key) := by
  rw [replaceEq]
  refine heldEnter.trans ?_
  rw [heldWithdraw, Occurrences.exchange]
  split
  · rfl
  · next out =>
    have absent : ∀ value, (file, value) ∉ (index.held key).pairs := by
      intro value mem
      exact out (mem_addAllNew.2 (.inl (all key value mem)))
    rw [Occurrences.removeFileAbsent absent]

theorem dropEq (index : KeyIndex K V) (file : FileId) (previous : List K) :
    index.drop file previous = index.replace file previous [] := rfl

variable [Wire K] [Wire V]

theorem Tells.replace {index : KeyIndex K V} {entries : Entries} {a : Account K V}
    (h : Tells index entries a) {file : FileId} {previous : List K} {new : List (K × V)}
    (old : a.Lists previous file)
    (held : ∀ key ∈ addAllNew previous (new.map (·.1)), index.containers.contains key)
    (coded : ∀ p ∈ new, Wire.ReadsBack p.1 ∧ Wire.ReadsBack p.2) :
    Tells (index.replace file previous new) entries (a.put file new) := by
  -- The keys that are touched are those of the file, before or after.
  have among : ∀ key, key ∈ addAllNew previous (new.map (·.1)) ↔
      a.lists file key ∨ ∃ value, (key, value) ∈ new := by
    intro key
    rw [mem_addAllNew, old.2]
    simp
  constructor
  case coded => exact h.coded.put file coded
  case shown =>
    intro key there
    have there : index.containers.contains key := (containsReplace.1 there).elim (held key) id
    obtain ⟨reads, shows⟩ := h.shown key there
    refine ⟨reads, fun f value => ?_⟩
    rw [memReplace, shows, among, and_comm (b := f = file)]
    exact Iff.rfl
  case dirty =>
    intro key hk
    exact containsReplace.2 ((dirtyReplace.1 hk).imp id fun d => h.dirty key d)
  case clean =>
    intro key reads out
    rw [dirtyReplace, not_or, among, not_or, not_exists] at out
    refine (h.clean key reads out.2).congr rfl fun f value => ?_
    simp [Account.put, out.1]
  case listed =>
    intro f keys known
    rw [forwardReplace] at known
    split at known
    · next same =>
      subst same
      split at known
      · cases known
      · next full =>
        cases Option.some.inj known
        refine ⟨fun none => full ((listsEntries new).emptyIff.1 none), (listsEntries new).1, fun key => ?_⟩
        exact ((listsEntries new).2 key).trans Account.putSame.symm
    · next other =>
      obtain ⟨full, lists⟩ := h.listed f keys known
      exact ⟨full, lists.congr (Account.putOther other).1⟩
  case gone =>
    intro f dirty unknown key
    rw [forwardReplace] at unknown
    split at unknown
    · next same =>
      subst same
      rw [Account.putSame]
      rintro ⟨value, mem⟩
      have full : new ≠ [] := List.ne_nil_of_mem mem
      simp [full] at unknown
    · next other =>
      rw [(Account.putOther other).1]
      exact h.gone f ((dirtyFilesReplace.1 dirty).resolve_right other) unknown key
  case settled =>
    intro f out
    rw [dirtyFilesReplace, not_or] at out
    exact (h.settled f out.1).congr rfl (Account.putOther out.2).1
  case keyPlaces => exact h.keyPlaces
  case filePlaces => exact h.filePlaces

end SymbolCatalog.KeyIndex
