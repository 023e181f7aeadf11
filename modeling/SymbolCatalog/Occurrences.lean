import SymbolCatalog.Container

/-! What every container keeps: distinct values, each with files in ascending order, and a number
that counts them. `Occurrences` are the containers of which this holds. -/
namespace SymbolCatalog

theorem FileId.raw_inj {a b : FileId} (same : a.raw = b.raw) : a = b := by
  cases a
  cases b
  exact congrArg mk same

def Ascending (files : List FileId) : Prop := files.Pairwise fun a b => a.raw < b.raw

theorem Ascending.nodup {files : List FileId} (h : Ascending files) : files.Nodup := by
  refine List.Pairwise.imp ?_ h
  intro a _ lt same
  subst same
  exact UInt32.lt_irrefl _ lt

/-! Searching an ascending list. -/

inductive Located (file : FileId) (files : List FileId) : Except Nat Nat → Prop where
  | found {before after} (parts : files = before ++ file :: after) : Located file files (.ok before.length)
  | missing {before after} (parts : files = before ++ after) (below : ∀ f ∈ before, f.raw < file.raw)
      (above : ∀ f ∈ after, file.raw < f.raw) : Located file files (.error before.length)

theorem located_search {file : FileId} {files : List FileId} (ascending : Ascending files) (low high : Nat)
    (inside : high ≤ files.length) (ordered : low ≤ high)
    (below : ∀ i (h : i < files.length), i < low → files[i].raw < file.raw)
    (above : ∀ i (h : i < files.length), high ≤ i → file.raw < files[i].raw) :
    Located file files (file.search files low high inside) := by
  have order := List.pairwise_iff_getElem.1 ascending
  -- What lies before `low` is smaller than the file, what lies from `high` on is larger.
  fun_induction file.search files low high inside with
  | case1 low high inside more middle smaller ih =>
    refine ih (by omega) (fun i h before => ?_) above
    rcases Nat.lt_or_eq_of_le (Nat.le_of_lt_succ before) with earlier | rfl
    · exact UInt32.lt_trans (order i middle h (by omega) earlier) smaller
    · exact smaller
  | case2 low high inside more middle _ larger ih =>
    refine ih (by omega) below fun i h behind => ?_
    rcases Nat.lt_or_eq_of_le behind with later | rfl
    · exact UInt32.lt_trans larger (order middle i (by omega) h later)
    · exact larger
  | case3 low high inside more middle notSmaller notLarger =>
    have same : files[middle] = file :=
      FileId.raw_inj (UInt32.le_antisymm (UInt32.not_lt.1 notLarger) (UInt32.not_lt.1 notSmaller))
    have parts : files = files.take middle ++ file :: files.drop (middle + 1) := by
      rw [← same, List.getElem_cons_drop, List.take_append_drop]
    have place : (files.take middle).length = middle := List.length_take_of_le (by omega)
    simpa only [place] using Located.found parts
  | case4 low high inside none =>
    have place : (files.take low).length = low := List.length_take_of_le (by omega)
    refine place ▸ Located.missing (List.take_append_drop low files).symm (fun f mem => ?_) fun f mem => ?_
    · obtain ⟨i, h, rfl⟩ := List.mem_take_iff_getElem.1 mem
      exact below i (by omega) (by omega)
    · obtain ⟨i, h, rfl⟩ := List.mem_drop_iff_getElem.1 mem
      exact above (low + i) (by omega) (by omega)

theorem located (file : FileId) {files : List FileId} (ascending : Ascending files) :
    Located file files (file.search files 0 files.length (Nat.le_refl _)) :=
  located_search ascending 0 files.length _ (Nat.zero_le _) (fun _ _ none => absurd none (Nat.not_lt_zero _))
    fun _ h behind => absurd h (Nat.not_lt.2 behind)

theorem ascending_parts {file : FileId} {before after : List FileId} :
    Ascending (before ++ file :: after) ↔ Ascending (before ++ after) ∧
      (∀ f ∈ before, f.raw < file.raw) ∧ ∀ f ∈ after, file.raw < f.raw := by
  simp only [Ascending, List.pairwise_append, List.pairwise_cons, List.mem_cons, forall_eq_or_imp]
  grind

theorem not_mem_parts {file : FileId} {before after : List FileId} (below : ∀ f ∈ before, f.raw < file.raw)
    (above : ∀ f ∈ after, file.raw < f.raw) : file ∉ before ++ after := fun mem =>
  (List.mem_append.1 mem).elim (fun mem => UInt32.lt_irrefl _ (below file mem))
    fun mem => UInt32.lt_irrefl _ (above file mem)

theorem insertIdx_parts (file : FileId) (before after : List FileId) :
    (before ++ after).insertIdx before.length file = before ++ file :: after := by
  induction before with
  | nil => rfl
  | cons first before ih => exact congrArg (first :: ·) ih

theorem eraseIdx_parts (file : FileId) (before after : List FileId) :
    (before ++ file :: after).eraseIdx before.length = before ++ after := by
  rw [List.eraseIdx_append_of_length_le (Nat.le_refl _), Nat.sub_self, List.eraseIdx_cons_zero]

structure Inserted (file : FileId) (files : List FileId) (answer : Bool × List FileId) : Prop where
  added : answer.1 = true ↔ file ∉ files
  ascending : Ascending answer.2
  mem : ∀ f, f ∈ answer.2 ↔ f = file ∨ f ∈ files
  length : answer.2.length = files.length + answer.1.toNat

theorem inserted (file : FileId) {files : List FileId} (ascending : Ascending files) :
    Inserted file files (file.insertSorted files) := by
  have place := located file ascending
  rw [FileId.insertSorted]
  generalize file.search files 0 files.length (Nat.le_refl _) = answer at place
  cases place with
  | found parts =>
    have there : file ∈ files := by simp [parts]
    exact ⟨by simp [there], ascending, by grind, by simp⟩
  | missing parts below above =>
    subst parts
    have absent := not_mem_parts below above
    simp only [insertIdx_parts]
    exact ⟨by simp only [absent, not_false_eq_true], ascending_parts.2 ⟨ascending, below, above⟩, by grind, by grind⟩

structure Removed (file : FileId) (files : List FileId) (answer : Bool × List FileId) : Prop where
  removed : answer.1 = true ↔ file ∈ files
  ascending : Ascending answer.2
  mem : ∀ f, f ∈ answer.2 ↔ f ∈ files ∧ f ≠ file
  absent : file ∉ files → answer = (false, files)
  length : files.length = answer.2.length + answer.1.toNat

theorem removed (file : FileId) {files : List FileId} (ascending : Ascending files) :
    Removed file files (file.removeSorted files) := by
  have place := located file ascending
  rw [FileId.removeSorted]
  generalize file.search files 0 files.length (Nat.le_refl _) = answer at place
  cases place with
  | found parts =>
    subst parts
    obtain ⟨rest, below, above⟩ := ascending_parts.1 ascending
    have absent := not_mem_parts below above
    simp only [eraseIdx_parts]
    exact ⟨by simp, rest, by grind, by simp, by grind⟩
  | missing parts below above =>
    subst parts
    have absent := not_mem_parts below above
    exact ⟨by simp only [absent, reduceCtorEq], ascending, by grind, fun _ => rfl, by simp⟩

/-! What an entry adds to the other ones. -/

variable {V : Type}

structure Grouped (entries : List (V × List FileId)) : Prop where
  distinct : (entries.map (·.1)).Nodup
  ascending : ∀ e ∈ entries, Ascending e.2
  occupied : ∀ e ∈ entries, e.2 ≠ []

theorem Grouped.perm {entries entries' : List (V × List FileId)} (h : Grouped entries)
    (same : entries.Perm entries') : Grouped entries' :=
  ⟨(same.map (·.1)).nodup_iff.1 h.distinct, fun e he => h.ascending e (same.mem_iff.2 he),
    fun e he => h.occupied e (same.mem_iff.2 he)⟩

theorem grouped_cons {value : V} {files : List FileId} {rest : List (V × List FileId)} :
    Grouped ((value, files) :: rest) ↔
      Grouped rest ∧ value ∉ rest.map (·.1) ∧ Ascending files ∧ files ≠ [] := by
  constructor
  · rintro ⟨distinct, ascending, occupied⟩
    obtain ⟨new, distinct⟩ := List.nodup_cons.1 distinct
    exact ⟨⟨distinct, fun e he => ascending e (.tail _ he), fun e he => occupied e (.tail _ he)⟩, new,
      ascending _ (.head _), occupied _ (.head _)⟩
  · rintro ⟨⟨distinct, ascending, occupied⟩, new, rising, filled⟩
    exact ⟨List.nodup_cons.2 ⟨new, distinct⟩, List.forall_mem_cons.2 ⟨rising, ascending⟩,
      List.forall_mem_cons.2 ⟨filled, occupied⟩⟩

theorem mem_pairsOf {entries : List (V × List FileId)} {file : FileId} {value : V} :
    (file, value) ∈ pairsOf entries ↔ ∃ e ∈ entries, e.1 = value ∧ file ∈ e.2 := by
  simp only [pairsOf, List.mem_flatMap, List.mem_map, Prod.mk.injEq]
  constructor
  · rintro ⟨e, he, f, hf, rfl, rfl⟩
    exact ⟨e, he, rfl, hf⟩
  · rintro ⟨e, he, rfl, hf⟩
    exact ⟨e, he, file, hf, rfl, rfl⟩

theorem mem_pairsOf_cons {value v : V} {files : List FileId} {rest : List (V × List FileId)} {f : FileId} :
    (f, v) ∈ pairsOf ((value, files) :: rest) ↔ (f ∈ files ∧ v = value) ∨ (f, v) ∈ pairsOf rest := by
  simp only [mem_pairsOf, List.mem_cons, exists_eq_or_imp]
  grind

theorem not_mem_pairsOf {entries : List (V × List FileId)} {value : V} (new : value ∉ entries.map (·.1))
    (f : FileId) : (f, value) ∉ pairsOf entries := by
  rw [mem_pairsOf]
  rintro ⟨e, he, rfl, -⟩
  exact new (List.mem_map.2 ⟨e, he, rfl⟩)

theorem length_pairsOf_cons {value : V} {files : List FileId} {rest : List (V × List FileId)} :
    (pairsOf ((value, files) :: rest)).length = (pairsOf rest).length + files.length := by
  rw [pairsOf, List.flatMap_cons, List.length_append, List.length_map, Nat.add_comm]
  rfl

theorem length_pairsOf_eq_zero {entries : List (V × List FileId)} (h : Grouped entries) :
    (pairsOf entries).length = 0 ↔ entries = [] := by
  cases entries with
  | nil => simp [pairsOf]
  | cons e rest =>
    have filled := List.length_pos_iff.2 (h.occupied e (.head _))
    rw [length_pairsOf_cons]
    exact iff_of_false (by omega) (List.cons_ne_nil e rest)

structure Without (file : FileId) (entries : List (V × List FileId)) (answer : Nat × List (V × List FileId)) :
    Prop where
  grouped : Grouped answer.2
  mem : ∀ f v, (f, v) ∈ pairsOf answer.2 ↔ (f, v) ∈ pairsOf entries ∧ f ≠ file
  length : (pairsOf entries).length = (pairsOf answer.2).length + answer.1
  shorter : answer.2.length ≤ entries.length

theorem without (file : FileId) {entries : List (V × List FileId)} (h : Grouped entries) :
    Without file entries (withoutFile file entries) := by
  induction entries with
  | nil => exact ⟨h, by simp [withoutFile, pairsOf], rfl, Nat.le_refl _⟩
  | cons e rest ih =>
    obtain ⟨tail, new, ascending, occupied⟩ := grouped_cons.1 h
    have ih := ih tail
    have taken := removed file ascending
    have new : e.1 ∉ (withoutFile file rest).2.map (·.1) := fun mem =>
      new ((withoutFile_keys file rest).subset mem)
    have left : ∀ f v, (f ∈ (file.removeSorted e.2).2 ∧ v = e.1) ∨ (f, v) ∈ pairsOf (withoutFile file rest).2 ↔
        (f, v) ∈ pairsOf (e :: rest) ∧ f ≠ file := fun f v => by
      rw [mem_pairsOf_cons, ih.mem, taken.mem]
      grind
    have count : (pairsOf (e :: rest)).length = (pairsOf (withoutFile file rest).2).length +
        (file.removeSorted e.2).2.length + ((file.removeSorted e.2).1.toNat + (withoutFile file rest).1) := by
      rw [length_pairsOf_cons, ih.length, taken.length]
      omega
    simp only [withoutFile]
    split
    · next none =>
      rw [List.isEmpty_iff] at none
      rw [none] at left count
      exact ⟨ih.grouped, fun f v => by simpa using left f v, count, Nat.le_succ_of_le ih.shorter⟩
    · next some =>
      rw [List.isEmpty_iff] at some
      exact ⟨grouped_cons.2 ⟨ih.grouped, new, taken.ascending, some⟩, fun f v => mem_pairsOf_cons.trans (left f v),
        count.trans (by rw [length_pairsOf_cons]), Nat.succ_le_succ ih.shorter⟩

theorem without_absent {file : FileId} {entries : List (V × List FileId)} (h : Grouped entries)
    (absent : ∀ value, (file, value) ∉ pairsOf entries) : withoutFile file entries = (0, entries) := by
  induction entries with
  | nil => rfl
  | cons e rest ih =>
    obtain ⟨tail, -, ascending, occupied⟩ := grouped_cons.1 h
    have first : file ∉ e.2 := fun mem => absent e.1 (mem_pairsOf_cons.2 (.inl ⟨mem, rfl⟩))
    have others := ih tail fun value mem => absent value (mem_pairsOf_cons.2 (.inr mem))
    simp only [withoutFile, (removed file ascending).absent first, others, List.isEmpty_eq_false_iff.2 occupied]
    rfl

theorem length_pairsOf_perm {entries entries' : List (V × List FileId)} (same : entries.Perm entries') :
    (pairsOf entries).length = (pairsOf entries').length := (same.flatMap_right _).length_eq

theorem mem_pairsOf_perm {entries entries' : List (V × List FileId)} (same : entries.Perm entries')
    {p : FileId × V} : p ∈ pairsOf entries ↔ p ∈ pairsOf entries' := (same.flatMap_right _).mem_iff

/-! Both kinds of storage look for a value alike. -/

namespace Storage
variable [DecidableEq V]

theorem files?_eq (s : Storage V) (value : V) :
    s.files? value = (s.entries.find? (·.1 = value)).map (·.2) := by
  cases s <;> rfl

theorem files?_none {s : Storage V} {value : V} (none : s.files? value = none) :
    value ∉ s.entries.map (·.1) := by
  rw [files?_eq, Option.map_eq_none_iff, List.find?_eq_none] at none
  intro mem
  obtain ⟨e, he, same⟩ := List.mem_map.1 mem
  exact none e he (decide_eq_true same)

structure Splits (s : Storage V) (value : V) (files : List FileId) (rest : List (V × List FileId)) : Prop where
  entries : s.entries.Perm ((value, files) :: rest)
  change : ∀ others, (s.change value others).entries.Perm ((value, others) :: rest)
  drop : (s.drop value).entries = rest

theorem splits {s : Storage V} (h : Grouped s.entries) {value : V} {files : List FileId}
    (known : s.files? value = some files) : ∃ rest, s.Splits value files rest := by
  rw [files?_eq, Option.map_eq_some_iff] at known
  obtain ⟨⟨v, files⟩, found, rfl⟩ := known
  obtain ⟨same, before, after, parts, -⟩ := List.find?_eq_some_iff_append.1 found
  obtain rfl : v = value := of_decide_eq_true same
  have new : v ∉ (before ++ after).map (·.1) :=
    (grouped_cons.1 ((parts ▸ h).perm List.perm_middle)).2.1
  have differs : ∀ e ∈ before ++ after, e.1 ≠ v := fun e he same => new (List.mem_map.2 ⟨e, he, same⟩)
  have first : v ∉ before.map (·.1) := fun mem => new (by simp only [List.map_append]; exact List.mem_append_left _ mem)
  refine ⟨before ++ after, ⟨parts ▸ List.perm_middle, fun others => ?_, ?_⟩⟩
  · have put : (s.change v others).entries = Dict.putPair v others s.entries := by cases s <;> rfl
    rw [put, parts, Dict.putPair_parts first]
    exact List.perm_middle
  · cases s with
    | inline entries =>
      change entries.eraseP _ = _
      change entries = _ at parts
      rw [parts, List.eraseP_append_right _ (by simpa using fun a b hab => differs (a, b) (List.mem_append_left _ hab)),
        List.eraseP_cons_of_pos (by exact same)]
    | map dict =>
      change dict.pairs.filter _ = _
      change dict.pairs = _ at parts
      rw [parts, List.filter_append, List.filter_cons_of_neg (by simp), ← List.filter_append,
        List.filter_eq_self.2 fun e he => decide_eq_true (differs e he)]

structure Leaves (s : Storage V) (value : V) (others : List FileId) (rest : List (V × List FileId))
    (next : Storage V) : Prop where
  grouped : Grouped next.entries
  form : next.isInline = s.isInline
  shorter : next.entries.length ≤ s.entries.length
  length : (pairsOf next.entries).length = (pairsOf rest).length + others.length
  mem : ∀ f v, (f, v) ∈ pairsOf next.entries ↔ (f ∈ others ∧ v = value) ∨ (f, v) ∈ pairsOf rest

section
variable {s : Storage V} {value : V} {files : List FileId} {rest : List (V × List FileId)}

theorem Splits.leavesChanged (h : s.Splits value files rest) (grouped : Grouped rest)
    (new : value ∉ rest.map (·.1)) {others : List FileId} (ascending : Ascending others) (filled : others ≠ []) :
    s.Leaves value others rest (s.change value others) where
  grouped := (grouped_cons.2 ⟨grouped, new, ascending, filled⟩).perm (h.change others).symm
  form := by cases s <;> rfl
  shorter := Nat.le_of_eq ((h.change others).length_eq.trans h.entries.length_eq.symm)
  length := (length_pairsOf_perm (h.change others)).trans length_pairsOf_cons
  mem _ _ := (mem_pairsOf_perm (h.change others)).trans mem_pairsOf_cons

theorem Splits.leavesRest (h : s.Splits value files rest) (grouped : Grouped rest) :
    s.Leaves value [] rest (s.drop value) where
  grouped := h.drop.symm ▸ grouped
  form := by cases s <;> rfl
  shorter := h.drop.symm ▸ Nat.le_of_succ_le (Nat.le_of_eq h.entries.length_eq.symm)
  length := congrArg (fun entries => (pairsOf entries).length) h.drop
  mem f v := h.drop.symm ▸ by simp

end

theorem entries_push {s : Storage V} (h : Grouped s.entries) {value : V} (new : value ∉ s.entries.map (·.1))
    (files : List FileId) : (s.push value files).entries = s.entries ++ [(value, files)] := by
  cases s with
  | inline entries =>
    rw [push]
    split
    · rfl
    · have moved : (Dict.ofPairs entries).pairs = entries := Dict.pairs_ofPairs h.distinct
      change Dict.putPair value files (Dict.ofPairs entries).pairs = entries ++ _
      rw [moved]
      exact Dict.putPair_new new
  | map dict => exact Dict.putPair_new new

theorem isInline_push (s : Storage V) (value : V) (files : List FileId) :
    (s.push value files).isInline = true ↔ s.isInline = true ∧ s.entries.length < inlineCapacity := by
  cases s with
  | inline entries =>
    rw [push]
    split
    · next room => exact iff_of_true rfl ⟨rfl, room⟩
    · next full => exact iff_of_false Bool.false_ne_true fun both => full both.2
  | map dict => exact iff_of_false Bool.false_ne_true fun both => Bool.false_ne_true both.1

end Storage

/-! What the operations of a container keep. -/

namespace Container

/-- What holds of a container but for the storage it has when nothing is left. -/
structure Counts (c : Container V) : Prop where
  grouped : Grouped c.entries
  counted : c.len = c.pairs.length
  few : c.isInline = true → c.entries.length ≤ inlineCapacity

structure Sound (c : Container V) : Prop extends c.Counts where
  filled : c.isInline = false → c.entries ≠ []

theorem sound_new : (new : Container V).Sound where
  grouped := ⟨.nil, fun _ mem => absurd mem List.not_mem_nil, fun _ mem => absurd mem List.not_mem_nil⟩
  counted := rfl
  few _ := Nat.zero_le _
  filled map := absurd map Bool.noConfusion

theorem Counts.none {c : Container V} (h : c.Counts) : c.len = 0 ↔ c.entries = [] :=
  h.counted ▸ length_pairsOf_eq_zero h.grouped

theorem Counts.sound {c : Container V} (h : c.Counts) (some : c.len ≠ 0) : c.Sound :=
  ⟨h, fun _ none => some (h.none.2 none)⟩

theorem reset_filled {c : Container V} (some : c.len ≠ 0) : resetIfEmpty c = c := by
  simp [resetIfEmpty, some]

theorem Counts.reset_empty {c : Container V} (h : c.Counts) (none : c.len = 0) : resetIfEmpty c = new := by
  obtain ⟨storage, len⟩ := c
  obtain rfl : len = 0 := none
  cases storage with
  | inline entries =>
    obtain rfl : entries = [] := h.none.1 rfl
    rfl
  | map dict => rfl

theorem Sound.reset {c : Container V} (h : c.Sound) : resetIfEmpty c = c := by
  by_cases none : c.len = 0
  · have inline : c.isInline = true := Bool.of_not_eq_false fun map => h.filled map (h.none.1 none)
    simp [resetIfEmpty, inline]
  · exact reset_filled none

structure Keeps (c : Container V) (keep : FileId → V → Prop) (rest : Container V) : Prop where
  sound : rest.Sound
  mem : ∀ f v, (f, v) ∈ rest.pairs ↔ (f, v) ∈ c.pairs ∧ keep f v
  form : rest.isInline = true ↔ c.isInline = true ∨ rest.entries = []

theorem Counts.keeps {c rest : Container V} {keep : FileId → V → Prop} (h : rest.Counts)
    (form : rest.isInline = c.isInline) (mem : ∀ f v, (f, v) ∈ rest.pairs ↔ (f, v) ∈ c.pairs ∧ keep f v) :
    c.Keeps keep (resetIfEmpty rest) := by
  by_cases none : rest.len = 0
  · rw [h.reset_empty none]
    rw [pairs, h.none.1 none] at mem
    exact ⟨sound_new, mem, iff_of_true rfl (.inr rfl)⟩
  · rw [reset_filled none]
    refine ⟨h.sound none, mem, ?_⟩
    rw [form]
    exact ⟨.inl, fun either => either.elim id fun empty => absurd (h.none.2 empty) none⟩

theorem Keeps.inline {c rest : Container V} {keep : FileId → V → Prop} (keeps : c.Keeps keep rest) :
    rest.isInline = true ↔ (c.isInline = true ∨ rest.entries = []) ∧ rest.entries.length ≤ inlineCapacity :=
  ⟨fun inline => ⟨keeps.form.1 inline, keeps.sound.few inline⟩, fun both => keeps.form.2 both.1⟩

theorem Sound.removeFile {c : Container V} (h : c.Sound) (file : FileId) :
    c.Keeps (fun f _ => f ≠ file) (c.removeFile file).2 ∧
      c.len = (c.removeFile file).2.len + (c.removeFile file).1 := by
  obtain ⟨storage, len⟩ := c
  have same : withoutFile file storage.entries =
      ((storage.removeFile file).1, (storage.removeFile file).2.entries) := by
    cases storage <;> rfl
  have form : (storage.removeFile file).2.isInline = storage.isInline := by
    cases storage <;> rfl
  have taken := same ▸ without file h.grouped
  have size : len = (pairsOf (storage.removeFile file).2.entries).length + (storage.removeFile file).1 :=
    h.counted.trans taken.length
  have counts : (Container.mk (storage.removeFile file).2 (len - (storage.removeFile file).1)).Counts :=
    ⟨taken.grouped, Nat.sub_eq_of_eq_add size, fun inline => Nat.le_trans taken.shorter (h.few (form.symm.trans inline))⟩
  have len_reset (c : Container V) : (resetIfEmpty c).len = c.len := by
    rw [resetIfEmpty]
    split <;> rfl
  refine ⟨counts.keeps form taken.mem, ?_⟩
  rw [Container.removeFile, len_reset]
  exact (Nat.sub_add_cancel (size ▸ Nat.le_add_left _ _)).symm

theorem Sound.counts {c : Container V} (h : c.Sound) {value : V} {others : List FileId}
    {rest : List (V × List FileId)} {next : Storage V} (leaves : c.storage.Leaves value others rest next) (len : Nat)
    (right : len = (pairsOf rest).length + others.length) : (Container.mk next len).Counts where
  grouped := leaves.grouped
  counted := right.trans leaves.length.symm
  few inline := Nat.le_trans leaves.shorter (h.few (leaves.form.symm.trans inline))

theorem Sound.removeFile_absent {c : Container V} (h : c.Sound) {file : FileId}
    (absent : ∀ value, (file, value) ∉ c.pairs) : (c.removeFile file).2 = c := by
  have same : c.storage.removeFile file = (0, c.storage) := by
    have gone : withoutFile file c.storage.entries = (0, c.storage.entries) := without_absent h.grouped absent
    cases kind : c.storage with
    | inline entries =>
      rw [kind] at gone
      change withoutFile file entries = (0, entries) at gone
      simp only [Storage.removeFile, gone]
    | map dict =>
      rw [kind] at gone
      change withoutFile file dict.pairs = (0, dict.pairs) at gone
      simp only [Storage.removeFile, gone]
  rw [Container.removeFile, same]
  exact h.reset

variable [DecidableEq V]

structure Takes (c : Container V) (file : FileId) (value : V) (answer : Bool × Container V) : Prop where
  sound : answer.2.Sound
  added : answer.1 = true ↔ (file, value) ∉ c.pairs
  mem : ∀ f v, (f, v) ∈ answer.2.pairs ↔ (f = file ∧ v = value) ∨ (f, v) ∈ c.pairs
  form : answer.2.isInline = true ↔ c.isInline = true ∧ answer.2.entries.length ≤ inlineCapacity

structure Known (c : Container V) (value : V) (files : List FileId) (rest : List (V × List FileId)) : Prop
    extends c.storage.Splits value files rest where
  grouped : Grouped rest
  new : value ∉ rest.map (·.1)
  ascending : Ascending files
  occupied : files ≠ []
  count : c.len = (pairsOf rest).length + files.length
  mem : ∀ f v, (f, v) ∈ c.pairs ↔ (f ∈ files ∧ v = value) ∨ (f, v) ∈ pairsOf rest

theorem Known.file {c : Container V} {value : V} {files : List FileId} {rest : List (V × List FileId)}
    (h : c.Known value files rest) (f : FileId) : (f, value) ∈ c.pairs ↔ f ∈ files := by
  rw [h.mem]
  exact ⟨fun there => there.elim And.left fun there => absurd there (not_mem_pairsOf h.new f),
    fun there => .inl ⟨there, rfl⟩⟩

theorem Sound.known {c : Container V} (h : c.Sound) {value : V} {files : List FileId}
    (known : c.storage.files? value = some files) : ∃ rest, c.Known value files rest := by
  obtain ⟨rest, parts⟩ := Storage.splits h.grouped known
  obtain ⟨grouped, new, ascending, occupied⟩ := grouped_cons.1 (h.grouped.perm parts.entries)
  exact ⟨rest, parts, grouped, new, ascending, occupied,
    h.counted.trans ((length_pairsOf_perm parts.entries).trans length_pairsOf_cons),
    fun f v => (mem_pairsOf_perm parts.entries).trans mem_pairsOf_cons⟩

theorem Known.leavesTaken {c : Container V} {value : V} {files : List FileId} {rest : List (V × List FileId)}
    (h : c.Known value files rest) {others : List FileId} (ascending : Ascending others) :
    c.storage.Leaves value others rest
      (if others.isEmpty then c.storage.drop value else c.storage.change value others) := by
  split
  · next none =>
    rw [List.isEmpty_iff.1 none]
    exact h.leavesRest h.grouped
  · next some => exact h.leavesChanged h.grouped h.new ascending (mt List.isEmpty_iff.2 some)

theorem Sound.add {c : Container V} (h : c.Sound) (file : FileId) (value : V) :
    c.Takes file value (c.add file value) := by
  cases known : c.storage.files? value with
  | some files =>
    obtain ⟨rest, value'⟩ := h.known known
    have more := inserted file value'.ascending
    have there : file ∈ (file.insertSorted files).2 := (more.mem file).2 (.inl rfl)
    have leaves := value'.leavesChanged value'.grouped value'.new more.ascending (List.ne_nil_of_mem there)
    have counts := h.counts leaves (if (file.insertSorted files).1 then c.len + 1 else c.len) (by
      rw [more.length, value'.count]
      cases (file.insertSorted files).1 <;> rfl)
    have filled : (if (file.insertSorted files).1 then c.len + 1 else c.len) ≠ 0 := by
      have some := List.length_pos_of_mem there
      have right := counts.counted.trans leaves.length
      simp only at right
      omega
    rw [Container.add, known]
    refine ⟨counts.sound filled, ?_, fun f v => ?_, ?_⟩
    · rw [more.added, value'.file]
    · refine (leaves.mem f v).trans ?_
      rw [more.mem, value'.mem]
      grind
    · exact ⟨fun inline => ⟨leaves.form.symm.trans inline, counts.few inline⟩, fun both => leaves.form.trans both.1⟩
  | none =>
    have new := Storage.files?_none known
    have after : (c.storage.push value [file]).entries.Perm ((value, [file]) :: c.entries) :=
      Storage.entries_push h.grouped new [file] ▸ List.perm_append_singleton _ _
    have size : (c.storage.push value [file]).entries.length = c.storage.entries.length + 1 := after.length_eq
    have form := Storage.isInline_push c.storage value [file]
    have counts : (Container.mk (c.storage.push value [file]) (c.len + 1)).Counts := by
      refine ⟨?_, ?_, fun inline => Nat.le_trans (Nat.le_of_eq size) (form.1 inline).2⟩
      · exact (grouped_cons.2 ⟨h.grouped, new, List.pairwise_singleton _ _, List.cons_ne_nil _ _⟩).perm after.symm
      · rw [h.counted]
        exact ((length_pairsOf_perm after).trans length_pairsOf_cons).symm
    rw [Container.add, known]
    refine ⟨counts.sound (Nat.succ_ne_zero _), iff_of_true rfl (not_mem_pairsOf new file), fun f v => ?_, ?_⟩
    · refine (mem_pairsOf_perm after).trans (mem_pairsOf_cons.trans ?_)
      rw [List.mem_singleton]
      rfl
    · exact form.trans (and_congr_right' (by rw [entries, size]; rfl))

theorem Sound.remove {c : Container V} (h : c.Sound) (file : FileId) (value : V) :
    c.Keeps (fun f v => ¬(f = file ∧ v = value)) (c.remove file value).2 ∧
      ((c.remove file value).1 = true ↔ (file, value) ∈ c.pairs) := by
  cases known : c.storage.files? value with
  | some files =>
    obtain ⟨rest, value'⟩ := h.known known
    have taken := removed file value'.ascending
    have leaves := value'.leavesTaken taken.ascending
    generalize stored : (if (file.removeSorted files).2.isEmpty then c.storage.drop value
      else c.storage.change value (file.removeSorted files).2) = storage at leaves
    have mem : ∀ f v, (f, v) ∈ pairsOf storage.entries ↔ (f, v) ∈ c.pairs ∧ ¬(f = file ∧ v = value) := by
      intro f v
      have others := not_mem_pairsOf value'.new
      rw [leaves.mem, value'.mem, taken.mem]
      grind
    have count := value'.count
    have some : c.len ≠ 0 := by
      have := List.length_pos_iff.2 value'.occupied
      omega
    rw [taken.length] at count
    rw [Container.remove, known]
    constructor
    · simp only [stored]
      split
      · next gone =>
        rw [gone] at count
        exact (h.counts leaves _ (Nat.sub_eq_of_eq_add count)).keeps leaves.form mem
      · next stays =>
        rw [Bool.not_eq_true] at stays
        rw [stays] at count
        exact reset_filled (c := ⟨storage, c.len⟩) some ▸ (h.counts leaves c.len count).keeps leaves.form mem
    · rw [taken.removed, value'.file]
  | none =>
    have absent := not_mem_pairsOf (Storage.files?_none known) file
    rw [Container.remove, known]
    refine ⟨⟨h, fun f v => ?_, ?_⟩, iff_of_false Bool.false_ne_true absent⟩
    · exact ⟨fun there => ⟨there, fun same => absent (same.1 ▸ same.2 ▸ there)⟩, And.left⟩
    · refine ⟨.inl, fun either => either.elim id fun none => ?_⟩
      exact Bool.of_not_eq_false fun map => h.filled map none

theorem sound_fromRecord (record : List (V × List FileId)) : (fromRecord record).Sound :=
  List.foldlRecOn record _ sound_new fun _ h e _ =>
    List.foldlRecOn e.2 _ h fun _ h file _ => (h.add file e.1).sound

end Container

/-- Where the values of one key occur. -/
structure Occurrences (V : Type) extends Container V where
  sound : toContainer.Sound

namespace Occurrences

def empty : Occurrences V := ⟨.new, Container.sound_new⟩

instance : Inhabited (Occurrences V) := ⟨empty⟩

def removeFile (c : Occurrences V) (file : FileId) : Nat × Occurrences V :=
  ((c.toContainer.removeFile file).1, ⟨(c.toContainer.removeFile file).2, (c.sound.removeFile file).1.sound⟩)

variable [DecidableEq V]

def insert (c : Occurrences V) (file : FileId) (value : V) : Occurrences V :=
  ⟨(c.add file value).2, (c.sound.add file value).sound⟩

def ofList (record : List (V × List FileId)) : Occurrences V :=
  ⟨.fromRecord record, Container.sound_fromRecord record⟩

instance [Wire V] : Wire (Occurrences V) where
  write c := write c.toRecord
  read := ofList <$> read

end Occurrences
end SymbolCatalog
