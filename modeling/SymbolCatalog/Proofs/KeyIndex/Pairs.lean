import SymbolCatalog.Occurrences
import SymbolCatalog.Wire.Lemmas
import Mathlib.Data.List.Induction
import Mathlib.Data.List.Nodup

/-! A container as the set of its pairs: what each operation does to the set, and that the stored
form gives it back. -/
namespace SymbolCatalog
variable {V : Type}

theorem filesShort {files : List FileId} (h : files.Nodup) : files.length < 2 ^ 64 := by
  have raws : (files.map fun f => f.raw.toNat).Nodup :=
    h.map fun a b same => by cases a; cases b; simpa [UInt32.toNat_inj] using same
  have below : (files.map fun f => f.raw.toNat) ⊆ List.range (2 ^ 32) := by
    intro n hn
    obtain ⟨f, -, rfl⟩ := List.mem_map.1 hn
    exact List.mem_range.2 f.raw.toNat_lt
  have := raws.length_le_of_subset below
  simp only [List.length_map, List.length_range] at this
  omega

theorem Grouped.pairsNodup {entries : List (V × List FileId)} (h : Grouped entries) :
    (pairsOf entries).Nodup := by
  refine List.nodup_flatMap.2 ⟨fun e he => ?_, ?_⟩
  · exact (h.ascending e he).nodup.map fun a b same => by simpa using same
  · refine (List.pairwise_map.1 h.distinct).imp ?_
    intro a b different p pa pb
    obtain ⟨_, -, rfl⟩ := List.mem_map.1 pa
    obtain ⟨_, -, same⟩ := List.mem_map.1 pb
    exact different (congrArg Prod.snd same).symm

theorem Container.anyFileIff {c : Container V} {scope : Scope} :
    c.anyFile scope = true ↔ ∃ file value, (file, value) ∈ c.pairs ∧ scope file = true := by
  simp only [anyFile, pairs, List.any_eq_true, mem_pairsOf]
  constructor
  · intro h
    obtain ⟨e, he, file, hf, inside⟩ := h
    exact ⟨file, e.1, ⟨e, he, rfl, hf⟩, inside⟩
  · intro h
    obtain ⟨file, _, ⟨e, he, rfl, hf⟩, inside⟩ := h
    exact ⟨e, he, file, hf, inside⟩

namespace Container
variable [DecidableEq V]

theorem memAddFiles {files : List FileId} {c : Container V} (h : c.Sound) {value v : V} {f : FileId} :
    (f, v) ∈ (files.foldl (fun c file => (c.add file value).2) c).pairs ↔
      (f ∈ files ∧ v = value) ∨ (f, v) ∈ c.pairs := by
  induction files generalizing c with
  | nil => simp
  | cons file files ih =>
    rw [List.foldl_cons, ih (h.add file value).sound, (h.add file value).mem, List.mem_cons]
    tauto

theorem memFromRecord {record : List (V × List FileId)} {f : FileId} {v : V} :
    (f, v) ∈ (fromRecord record).pairs ↔ ∃ e ∈ record, e.1 = v ∧ f ∈ e.2 := by
  induction record using List.reverseRecOn with
  | nil => exact iff_of_false List.not_mem_nil (by simp)
  | append_singleton record e ih =>
    rw [fromRecord, List.foldl_append, List.foldl_cons, List.foldl_nil, ← fromRecord,
      memAddFiles (sound_fromRecord record), ih]
    simp only [List.mem_append, List.mem_singleton]
    grind

end Container

namespace Occurrences

theorem pairsNodup (c : Occurrences V) : c.pairs.Nodup := c.sound.grouped.pairsNodup

theorem memPairs {c : Occurrences V} {file : FileId} {value : V} :
    (file, value) ∈ c.pairs ↔ ∃ e ∈ c.entries, e.1 = value ∧ file ∈ e.2 := mem_pairsOf

theorem isEmptyIff {c : Occurrences V} : c.isEmpty = true ↔ ∀ p, p ∉ c.pairs := by
  rw [Container.isEmpty, decide_eq_true_iff, c.sound.counted, List.length_eq_zero_iff, List.eq_nil_iff_forall_not_mem]

theorem anyFileIff {c : Occurrences V} {scope : Scope} :
    c.anyFile scope = true ↔ ∃ file value, (file, value) ∈ c.pairs ∧ scope file = true :=
  Container.anyFileIff

theorem memRemoveFile {c : Occurrences V} {file f : FileId} {v : V} :
    (f, v) ∈ (c.removeFile file).2.pairs ↔ (f, v) ∈ c.pairs ∧ f ≠ file :=
  (c.sound.removeFile file).1.mem f v

theorem memEmpty {p : FileId × V} : p ∉ (empty : Occurrences V).pairs := List.not_mem_nil

theorem ext {c c' : Occurrences V} (same : c.toContainer = c'.toContainer) : c = c' := by
  cases c
  cases c'
  cases same
  rfl

theorem eqEmpty {c : Occurrences V} (none : ∀ p, p ∉ c.pairs) : c = .empty :=
  ext (c.sound.reset.symm.trans (c.sound.reset_empty (of_decide_eq_true (isEmptyIff.2 none))))

theorem removeFileAbsent {c : Occurrences V} {file : FileId} (absent : ∀ value, (file, value) ∉ c.pairs) :
    (c.removeFile file).2 = c :=
  ext (c.sound.removeFile_absent absent)

theorem removeFileTwice (c : Occurrences V) (file : FileId) :
    ((c.removeFile file).2.removeFile file).2 = (c.removeFile file).2 :=
  removeFileAbsent fun _ mem => (memRemoveFile.1 mem).2 rfl

variable [DecidableEq V]

def exchange (c : Occurrences V) (file : FileId) (values : List V) : Occurrences V :=
  values.foldl (·.insert file ·) (c.removeFile file).2

theorem memInsert {c : Occurrences V} {file f : FileId} {value v : V} :
    (f, v) ∈ (c.insert file value).pairs ↔ (f = file ∧ v = value) ∨ (f, v) ∈ c.pairs :=
  (c.sound.add file value).mem f v

theorem memInsertValues {c : Occurrences V} {file f : FileId} {values : List V} {v : V} :
    (f, v) ∈ (values.foldl (·.insert file ·) c).pairs ↔ (f = file ∧ v ∈ values) ∨ (f, v) ∈ c.pairs := by
  induction values generalizing c with
  | nil => simp
  | cons value values ih =>
    rw [List.foldl_cons, ih, memInsert, List.mem_cons]
    tauto

theorem memExchange {c : Occurrences V} {file f : FileId} {values : List V} {v : V} :
    (f, v) ∈ (c.exchange file values).pairs ↔ (f = file ∧ v ∈ values) ∨ ((f, v) ∈ c.pairs ∧ f ≠ file) := by
  rw [exchange, memInsertValues, memRemoveFile]

theorem memOfList {record : List (V × List FileId)} {f : FileId} {v : V} :
    (f, v) ∈ (ofList record).pairs ↔ ∃ e ∈ record, e.1 = v ∧ f ∈ e.2 := Container.memFromRecord

theorem readStored [Wire V] (c : Occurrences V) (values : ∀ e ∈ c.entries, Wire.ReadsBack e.1)
    (short : c.entries.length < 2 ^ 64) (rest : Bytes) :
    (read : Wire.Reader (Occurrences V)) (write c ++ rest) = .ok (ofList c.entries, rest) := by
  have entry : ∀ e ∈ c.entries, Wire.ReadsBack e := by
    intro e he
    refine Wire.readsBack_pair (values e he) (Wire.readsBack_list (fun file _ => ?_) ?_)
    · exact fun rest => Wire.map_eq (Wire.readsBack_word file.raw rest)
    · exact filesShort (c.sound.grouped.ascending e he).nodup
  exact Wire.map_eq (Wire.readsBack_list entry short rest)

end Occurrences
end SymbolCatalog
