import Mathlib.Data.Finset.Card
import Mathlib.Data.Finset.Image
import SymbolCatalog.Proofs.KeyIndex.Pairs
import SymbolCatalog.Proofs.Visit

/-! A container follows a finite set of pairs of a file and a value through any run of operations.
The entries of a dictionary may stand in another order at any time. -/
namespace SymbolCatalog.Container
variable {V : Type}

/- The entries of a dictionary, handed out in another order. -/
inductive Reordered : Container V → Container V → Prop where
  | map {dict dict' : Dict V (List FileId)} (same : dict'.pairs.Perm dict.pairs) (len : Nat) :
      Reordered ⟨.map dict, len⟩ ⟨.map dict', len⟩

theorem Reordered.kept {c c' : Container V} (moved : Reordered c c') :
    c'.entries.Perm c.entries ∧ c'.len = c.len ∧ c'.isInline = c.isInline := by
  cases moved with
  | map same => exact ⟨same, rfl, rfl⟩

structure Holds (c : Container V) (set : Finset (FileId × V)) : Prop extends c.Sound where
  same : ∀ p, p ∈ c.pairs ↔ p ∈ set

theorem Holds.reorder {c c' : Container V} {set : Finset (FileId × V)} (h : Holds c set)
    (moved : Reordered c c') : Holds c' set := by
  obtain ⟨entries, len, form⟩ := moved.kept
  refine ⟨⟨⟨h.grouped.perm entries.symm, ?_, fun inline => ?_⟩, fun map none => ?_⟩, fun p => ?_⟩
  · rw [len, h.counted]
    exact (length_pairsOf_perm entries).symm
  · exact Nat.le_trans (Nat.le_of_eq entries.length_eq) (h.few (form.symm.trans inline))
  · exact h.toSound.filled (form.symm.trans map) (List.perm_nil.1 (none ▸ entries.symm))
  · exact (mem_pairsOf_perm entries).trans (h.same p)

variable [DecidableEq V]

inductive Op (V : Type) where
  | add (file : FileId) (value : V)
  | remove (file : FileId) (value : V)
  | removeFile (file : FileId)

inductive Answer where
  | changed (did : Bool)
  | dropped (count : Nat)

def perform (c : Container V) : Op V → Answer × Container V
  | .add file value => (c.add file value).map .changed id
  | .remove file value => (c.remove file value).map .changed id
  | .removeFile file => (c.removeFile file).map .dropped id

def Op.onSet (set : Finset (FileId × V)) : Op V → Answer × Finset (FileId × V)
  | .add file value => (.changed ((file, value) ∉ set), Insert.insert (file, value) set)
  | .remove file value => (.changed ((file, value) ∈ set), set.erase (file, value))
  | .removeFile file => (.dropped (set.filter (·.1 = file)).card, set.filter (·.1 ≠ file))

def Op.allOnSet (set : Finset (FileId × V)) (ops : List (Op V)) : Finset (FileId × V) :=
  ops.foldl (fun set op => (op.onSet set).2) set

def Op.gained : Op V → Answer → Nat
  | .add _ _, .changed true => 1
  | _, _ => 0

def Op.lost : Op V → Answer → Nat
  | .remove _ _, .changed true => 1
  | .removeFile _, .dropped count => count
  | _, _ => 0

inductive Origin (V : Type) where
  | new
  | record (entries : List (V × List FileId))

def Origin.container : Origin V → Container V
  | .new => Container.new
  | .record entries => fromRecord entries

def Origin.set : Origin V → Finset (FileId × V)
  | .new => ∅
  | .record entries => (pairsOf entries).toFinset

inductive Reaches (c : Container V) : List (Op V) → Container V → Prop where
  | start : Reaches c [] c
  | perform {ops d} (reached : Reaches c ops d) (op : Op V) : Reaches c (ops ++ [op]) (d.perform op).2
  | reorder {ops d d'} (reached : Reaches c ops d) (moved : Reordered d d') : Reaches c ops d'

def valuesOf (set : Finset (FileId × V)) : Finset V := set.image (·.2)

structure Agrees (c : Container V) (set : Finset (FileId × V)) : Prop where
  answers : ∀ op, (c.perform op).1 = (op.onSet set).1
  len : c.len = set.card
  isEmpty : c.isEmpty = true ↔ set = ∅
  counted : ∀ op, (c.perform op).2.len + op.lost (c.perform op).1 = c.len + op.gained (c.perform op).1
  valueCount : c.valueCount = (valuesOf set).card
  values : c.values.Nodup ∧ ∀ value, value ∈ c.values ↔ value ∈ valuesOf set
  contains : ∀ value, c.contains value = true ↔ value ∈ valuesOf set
  filesOf : ∀ value, Ascending (c.filesOf value) ∧ ∀ file, file ∈ c.filesOf value ↔ (file, value) ∈ set
  anyFile : ∀ accept, c.anyFile accept = true ↔ ∃ p ∈ set, accept p.1 = true
  visit : ∀ {α : Type} (visitor : α → FileId × V → Bool × α) (start : α),
    Enumerates (· ∈ set) visitor start (c.visit visitor start)

section
variable {c : Container V} {set : Finset (FileId × V)}

theorem Holds.len (h : Holds c set) : c.len = set.card := by
  have all : c.pairs.toFinset = set := Finset.ext fun p => List.mem_toFinset.trans (h.same p)
  rw [h.counted, ← all]
  exact (List.toFinset_card_of_nodup h.grouped.pairsNodup).symm

theorem Holds.some (h : Holds c set) : set.Nonempty ↔ c.entries ≠ [] := by
  rw [← Finset.card_pos, ← h.len, Nat.pos_iff_ne_zero]
  exact not_congr h.none

theorem Holds.memValues (h : Holds c set) {value : V} : value ∈ c.values ↔ value ∈ valuesOf set := by
  rw [values, List.mem_map]
  simp only [valuesOf, Finset.mem_image, Prod.exists (p := fun p : FileId × V => _ ∧ _), exists_eq_right, ← h.same,
    pairs, mem_pairsOf]
  constructor
  · rintro ⟨e, he, rfl⟩
    obtain ⟨file, mem⟩ := List.exists_mem_of_ne_nil _ (h.grouped.occupied e he)
    exact ⟨file, e, he, rfl, mem⟩
  · rintro ⟨_, e, he, rfl, -⟩
    exact ⟨e, he, rfl⟩

theorem Holds.values (h : Holds c set) : c.entries.length = (valuesOf set).card := by
  have all : c.values.toFinset = valuesOf set := Finset.ext fun _ => List.mem_toFinset.trans h.memValues
  rw [← all]
  exact (List.length_map _).symm.trans (List.toFinset_card_of_nodup h.grouped.distinct).symm

theorem contains_iff {value : V} : c.contains value = true ↔ value ∈ c.values := by
  obtain ⟨storage, len⟩ := c
  cases storage with
  | inline entries =>
    simp only [contains, values, List.any_eq_true, decide_eq_true_eq, List.mem_map]
    rfl
  | map dict =>
    simp only [contains, values, Dict.contains, Dict.get?, Option.isSome_map, List.find?_isSome, decide_eq_true_eq,
      List.mem_map]
    rfl

theorem Holds.filesOf (h : Holds c set) (value : V) :
    Ascending (c.filesOf value) ∧ ∀ file, file ∈ c.filesOf value ↔ (file, value) ∈ set := by
  simp only [← h.same, Container.filesOf]
  cases known : c.storage.files? value with
  | some files =>
    obtain ⟨rest, value'⟩ := h.known known
    exact ⟨value'.ascending, fun file => (value'.file file).symm⟩
  | none =>
    have absent := not_mem_pairsOf (Storage.files?_none known)
    exact ⟨.nil, fun file => iff_of_false List.not_mem_nil (absent file)⟩

theorem Holds.perform (h : Holds c set) (op : Op V) :
    Holds (c.perform op).2 (op.onSet set).2 ∧ (c.perform op).1 = (op.onSet set).1 := by
  cases op with
  | add file value =>
    have step := h.toSound.add file value
    have answer : (c.add file value).1 = decide ((file, value) ∉ set) := by
      rw [Bool.eq_iff_iff, step.added, h.same, decide_eq_true_iff]
    refine ⟨⟨step.sound, fun p => ?_⟩, congrArg Answer.changed answer⟩
    exact (step.mem p.1 p.2).trans (by simp [Op.onSet, h.same, Prod.ext_iff])
  | remove file value =>
    obtain ⟨step, removed⟩ := h.toSound.remove file value
    have answer : (c.remove file value).1 = decide ((file, value) ∈ set) := by
      rw [Bool.eq_iff_iff, removed, h.same, decide_eq_true_iff]
    refine ⟨⟨step.sound, fun p => ?_⟩, congrArg Answer.changed answer⟩
    exact (step.mem p.1 p.2).trans (by simp [Op.onSet, h.same, Prod.ext_iff]; tauto)
  | removeFile file =>
    obtain ⟨step, dropped⟩ := h.toSound.removeFile file
    have rest : Holds (c.removeFile file).2 (set.filter (·.1 ≠ file)) :=
      ⟨step.sound, fun p => (step.mem p.1 p.2).trans (by simp [h.same])⟩
    refine ⟨rest, congrArg Answer.dropped ?_⟩
    change (c.removeFile file).1 = _
    have parts := Finset.card_filter_add_card_filter_not (s := set) (fun p => p.1 = file)
    rw [h.len, rest.len] at dropped
    simp only [ne_eq] at dropped
    omega

theorem onSetCounted (op : Op V) (set : Finset (FileId × V)) :
    (op.onSet set).2.card + op.lost (op.onSet set).1 = set.card + op.gained (op.onSet set).1 := by
  cases op with
  | add file value =>
    by_cases mem : (file, value) ∈ set
    · simp [Op.onSet, Op.lost, Op.gained, mem]
    · simp [Op.onSet, Op.lost, Op.gained, mem]
  | remove file value =>
    by_cases mem : (file, value) ∈ set
    · simpa [Op.onSet, Op.lost, Op.gained, mem] using Nat.sub_add_cancel (Finset.card_pos.2 ⟨_, mem⟩)
    · simp [Op.onSet, Op.lost, Op.gained, mem]
  | removeFile file =>
    have parts := Finset.card_filter_add_card_filter_not (s := set) (fun p => p.1 = file)
    simp only [Op.onSet, Op.lost, Op.gained, ne_eq]
    omega

theorem Holds.agrees (h : Holds c set) : Agrees c set where
  answers op := (h.perform op).2
  len := h.len
  isEmpty := by rw [isEmpty, decide_eq_true_iff, h.len, Finset.card_eq_zero]
  counted op := by
    obtain ⟨after, answer⟩ := h.perform op
    rw [after.len, answer, h.len]
    exact onSetCounted op set
  valueCount := by
    rw [← h.values]
    obtain ⟨storage, len⟩ := c
    cases storage <;> rfl
  values := ⟨h.grouped.distinct, fun _ => h.memValues⟩
  contains _ := contains_iff.trans h.memValues
  filesOf := h.filesOf
  anyFile accept := by
    rw [anyFileIff, Prod.exists]
    exact exists_congr fun _ => exists_congr fun _ => and_congr_left' (h.same _)
  visit visitor start := visitEnumerates visitor start h.grouped.pairsNodup h.same

theorem Origin.holds (origin : Origin V) : Holds origin.container origin.set := by
  cases origin with
  | new => exact ⟨sound_new, fun p => iff_of_false List.not_mem_nil (Finset.notMem_empty p)⟩
  | record record =>
    refine ⟨sound_fromRecord record, fun p => ?_⟩
    rw [Origin.container, memFromRecord, ← mem_pairsOf]
    exact List.mem_toFinset.symm

theorem Holds.rebuilt (h : Holds c set) : Holds (fromRecord c.toRecord) set :=
  ⟨sound_fromRecord _, fun p => (memFromRecord.trans mem_pairsOf.symm).trans (h.same p)⟩

end

theorem Op.allOnSet_snoc (set : Finset (FileId × V)) (ops : List (Op V)) (op : Op V) :
    Op.allOnSet set (ops ++ [op]) = (op.onSet (Op.allOnSet set ops)).2 := by
  rw [Op.allOnSet, List.foldl_append]
  rfl

theorem Reaches.holds {origin : Origin V} {ops : List (Op V)} {c : Container V}
    (run : Reaches origin.container ops c) : Holds c (Op.allOnSet origin.set ops) := by
  induction run with
  | start => exact origin.holds
  | perform _ op ih => exact Op.allOnSet_snoc origin.set _ op ▸ (ih.perform op).1
  | reorder _ moved ih => exact ih.reorder moved

/-! When a container is inline. -/

theorem Sound.inlineAfter {c : Container V} (h : c.Sound) (op : Op V) :
    (c.perform op).2.isInline = true ↔
      (c.isInline = true ∨ (c.perform op).2.entries = []) ∧ (c.perform op).2.entries.length ≤ inlineCapacity := by
  cases op with
  | add file value =>
    have step := h.add file value
    have filled : (c.add file value).2.entries ≠ [] := fun none => by
      have there := (step.mem file value).2 (.inl ⟨rfl, rfl⟩)
      rw [pairs, none] at there
      exact List.not_mem_nil there
    exact step.form.trans (and_congr_left' ⟨.inl, fun either => either.elim id fun none => absurd none filled⟩)
  | remove file value => exact (h.remove file value).1.inline
  | removeFile file => exact (h.removeFile file).1.inline

def Grown (c : Container V) : Prop := c.Sound ∧ (c.isInline = true ↔ c.entries.length ≤ inlineCapacity)

theorem Grown.add {c : Container V} (grown : Grown c) (file : FileId) (value : V) :
    Grown (c.add file value).2 := by
  obtain ⟨h, inline⟩ := grown
  have step := h.add file value
  refine ⟨step.sound, step.form.trans (and_iff_right_of_imp fun few => inline.2 ?_)⟩
  have old : Holds c c.pairs.toFinset := ⟨h, fun _ => List.mem_toFinset.symm⟩
  have new : Holds (c.add file value).2 (c.add file value).2.pairs.toFinset :=
    ⟨step.sound, fun _ => List.mem_toFinset.symm⟩
  rw [new.values] at few
  rw [old.values]
  refine Nat.le_trans (Finset.card_le_card (Finset.image_subset_image fun p mem => ?_)) few
  exact List.mem_toFinset.2 ((step.mem p.1 p.2).2 (.inr (List.mem_toFinset.1 mem)))

theorem Origin.grown (origin : Origin V) : Grown origin.container := by
  have start : Grown (.new : Container V) := ⟨sound_new, iff_of_true rfl (Nat.zero_le _)⟩
  cases origin with
  | new => exact start
  | record record =>
    refine List.foldlRecOn record _ start fun c grown e _ => ?_
    exact List.foldlRecOn e.2 _ grown fun c grown file _ => grown.add file e.1

/- Since the set was last empty it never had more than two values. -/
def Slim (start : Finset (FileId × V)) (ops : List (Op V)) : Prop :=
  ∀ before after, ops = before ++ after →
    (∀ middle, middle <+: after → (Op.allOnSet start (before ++ middle)).Nonempty) →
    (valuesOf (Op.allOnSet start before)).card ≤ 2

theorem valuesOfEmpty {set : Finset (FileId × V)} (none : ¬ set.Nonempty) : (valuesOf set).card ≤ 2 := by
  rw [Finset.not_nonempty_iff_eq_empty.1 none]
  exact Nat.zero_le 2

theorem slimNil {start : Finset (FileId × V)} : Slim start [] ↔ (valuesOf start).card ≤ 2 := by
  constructor
  · intro slim
    by_cases filled : start.Nonempty
    · exact slim [] [] rfl fun middle short => (List.prefix_nil.1 short).symm ▸ filled
    · exact valuesOfEmpty filled
  · intro few before after same _
    obtain ⟨rfl, rfl⟩ := List.append_eq_nil_iff.1 same.symm
    exact few

theorem slimSnoc {start : Finset (FileId × V)} {ops : List (Op V)} {op : Op V} :
    Slim start (ops ++ [op]) ↔ ((Op.allOnSet start (ops ++ [op])).Nonempty → Slim start ops) ∧
      (valuesOf (Op.allOnSet start (ops ++ [op]))).card ≤ 2 := by
  constructor
  · intro slim
    refine ⟨fun now before after same filled => ?_, ?_⟩
    · subst same
      refine slim before (after ++ [op]) (List.append_assoc ..) fun middle short => ?_
      rcases List.prefix_concat_iff.1 short with rfl | short
      · rwa [← List.append_assoc]
      · exact filled middle short
    · by_cases now : (Op.allOnSet start (ops ++ [op])).Nonempty
      · refine slim (ops ++ [op]) [] (List.append_nil _).symm fun middle short => ?_
        rwa [List.prefix_nil.1 short, List.append_nil]
      · exact valuesOfEmpty now
  · rintro ⟨slim, few⟩ before after same filled
    rcases List.eq_nil_or_concat after with rfl | ⟨others, last, rfl⟩
    · rwa [← List.append_nil before, ← same]
    · rw [List.concat_eq_append, ← List.append_assoc] at same
      obtain ⟨rfl, -⟩ := List.append_inj' same rfl
      have now := filled _ (List.prefix_refl _)
      rw [List.concat_eq_append, ← List.append_assoc, ← same] at now
      refine slim now before others rfl fun middle short => filled middle ?_
      exact short.trans (List.concat_eq_append ▸ List.prefix_append others [last])

theorem Reaches.inline {origin : Origin V} {ops : List (Op V)} {c : Container V}
    (run : Reaches origin.container ops c) : c.isInline = true ↔ Slim origin.set ops := by
  induction run with
  | start => rw [slimNil, ← origin.holds.values, origin.grown.2, inlineCapacity]
  | @perform ops c reached op ih =>
    have after := (reached.perform op).holds
    rw [slimSnoc, ← ih, after.some, ← after.values, reached.holds.inlineAfter op, ne_eq, inlineCapacity]
    exact and_congr_left' ⟨fun either some => either.resolve_right some,
      fun inline => or_iff_not_imp_right.2 inline⟩
  | reorder _ moved ih => exact moved.kept.2.2 ▸ ih

/-- A container is a finite set of pairs of a file and a value. From a new container, or one rebuilt
from a record, it follows the set through any run of operations and answers what the set answers. It
is inline just as long as, since it was last empty, it never held more than two values at once. Its
record makes a container of the same set. -/
theorem containerIsSet (origin : Origin V) (ops : List (Op V)) (c : Container V)
    (run : Reaches origin.container ops c) :
    Agrees c (Op.allOnSet origin.set ops) ∧
    (c.isInline = true ↔ Slim origin.set ops) ∧
    Agrees (fromRecord c.toRecord) (Op.allOnSet origin.set ops) :=
  ⟨run.holds.agrees, run.inline, run.holds.rebuilt.agrees⟩

def twoValues : Origin Nat := .record [(7, [⟨2⟩, ⟨1⟩, ⟨2⟩]), (8, [])]

def thirdValue : List (Op Nat) := [.add ⟨1⟩ 8, .add ⟨3⟩ 9, .remove ⟨2⟩ 7]

def promoted : Container Nat := ⟨.map ⟨[(9, [⟨3⟩]), (7, [⟨1⟩]), (8, [⟨1⟩])], by decide⟩, 3⟩

theorem promotedReached : Reaches twoValues.container thirdValue promoted := by
  have run := ((Reaches.start (c := twoValues.container)).perform (.add ⟨1⟩ 8)).perform (.add ⟨3⟩ 9)
  have last : (((twoValues.container.perform (.add ⟨1⟩ 8)).2.perform (.add ⟨3⟩ 9)).2.perform (.remove ⟨2⟩ 7)).2 =
      ⟨.map ⟨[(7, [⟨1⟩]), (8, [⟨1⟩]), (9, [⟨3⟩])], by decide⟩, 3⟩ := by decide +kernel
  exact (last ▸ run.perform (.remove ⟨2⟩ 7)).reorder (.map (by decide) 3)

theorem promotedIsSet :
    Agrees promoted {(⟨1⟩, 7), (⟨1⟩, 8), (⟨3⟩, 9)} ∧ ¬ Slim twoValues.set thirdValue := by
  obtain ⟨agrees, inline, -⟩ := containerIsSet twoValues thirdValue promoted promotedReached
  have set : Op.allOnSet twoValues.set thirdValue = {(⟨1⟩, 7), (⟨1⟩, 8), (⟨3⟩, 9)} := by decide +kernel
  exact ⟨set ▸ agrees, fun slim => Bool.false_ne_true (inline.2 slim)⟩

end SymbolCatalog.Container
