import SymbolCatalog.Proofs.KeyIndex.Calls
import SymbolCatalog.Proofs.Within

/-! What the calls of an index look at and what they leave alone on a store that does not fail. Only
a flush and a clear change entries, and a flush only those of keys and files. -/
namespace SymbolCatalog
open ExceptT
variable {σ α τ : Type} {view : σ → Entries}

theorem withinTold {call : StoreCall σ α} (answer : Entries → α) (next : Entries → Entries) (part : Entries → τ)
    (told : ∀ s, call.Ends s (fun a s' => a = answer (view s) ∧ view s' = next (view s)) fun _ => False)
    (leaves : ∀ entries, part (next entries) = part entries) : call.Within view fun s => part (view s) := by
  intro s s' alike
  obtain ⟨a, t, run, same, after⟩ := (told s).succeeds
  obtain ⟨a', t', run', same', after'⟩ := (told s').succeeds
  rw [run, run']
  refine ⟨?_, ?_, ?_⟩
  · rw [same, same', alike]
  · exact after.trans ((congrArg next alike).trans after'.symm)
  · exact (congrArg part after).trans (leaves _)

theorem withinSecond {ω β : Type} {seen : σ → ω} {kept : σ → τ} {call : StoreCall σ β} (h : call.Within seen kept) :
    (call.second : StoreCall (α × σ) β).Within (fun state => (state.1, seen state.2)) fun state => kept state.2 := by
  intro ⟨a, s⟩ ⟨a', s'⟩ alike
  cases (Prod.mk.inj alike).1
  obtain ⟨answer, after, stays⟩ := h s s' (Prod.mk.inj alike).2
  exact ⟨answer, congrArg (Prod.mk a) after, stays⟩

namespace KeyIndex
variable {K V : Type} {store : Store σ}

abbrev Minds (view : σ → Entries) (kept : Entries → τ) {α : Type} (call : Call K V σ α) : Prop :=
  call.Within (fun state => (state.1, view state.2)) fun state => kept (view state.2)

def apart (entries : Entries) (place : { place : Bytes // place.head? ≠ some 0x01 ∧ place.head? ≠ some 0x02 }) :
    Option Bytes := entries.get? place

theorem Beside.apart {entries entries' : Entries} (h : Beside entries entries') : apart entries' = apart entries :=
  funext fun place => h place.1 place.2.1 place.2.2

theorem mindsNow {part : Entries → τ} : Minds view part (now : Call K V σ (KeyIndex K V)) :=
  fun _ _ alike => ⟨congrArg Except.ok (Prod.mk.inj alike).1, alike, rfl⟩

theorem mindsChange {part : Entries → τ} (f : KeyIndex K V → KeyIndex K V) :
    Minds view part (change f : Call K V σ Unit) := by
  intro ⟨index, s⟩ ⟨index', s'⟩ alike
  cases (Prod.mk.inj alike).1
  exact ⟨rfl, congrArg (Prod.mk (f index)) (Prod.mk.inj alike).2, rfl⟩

theorem withinLift {α ω σ : Type} {seen : σ → ω} {kept : σ → τ} (answer : Except StorageError α) :
    (liftM answer : StoreCall σ α).Within seen kept := fun _ _ alike => ⟨rfl, alike, rfl⟩

section
variable (follows : store.Follows view False)
include follows

theorem withinGet (place : Bytes) : (store.get place).Within view view :=
  withinTold (fun entries => entries.get? place) id id
    (fun s => (follows.get place s).weaken (fun _ _ h => ⟨h.2, h.1⟩) fun _ no => no.1) fun _ => rfl

theorem withinPut (part : Entries → τ) (place value : Bytes)
    (leaves : ∀ entries, part (entries.insert place value) = part entries) :
    (store.put place value).Within view fun s => part (view s) :=
  withinTold (fun _ => ()) (·.insert place value) part
    (fun s => (follows.put place value s).weaken (fun _ _ h => ⟨rfl, h⟩) fun _ no => no.1) leaves

theorem withinRemove (part : Entries → τ) (place : Bytes)
    (leaves : ∀ entries, part (entries.erase place) = part entries) :
    (store.remove place).Within view fun s => part (view s) :=
  withinTold (fun _ => ()) (·.erase place) part
    (fun s => (follows.remove place s).weaken (fun _ _ h => ⟨rfl, h⟩) fun _ no => no.1) leaves

theorem mindsRecordPut {place : Bytes} (beside : ∀ entries value?, Beside entries (Entries.assign entries place value?))
    (value : Bytes) : Minds view apart ((store.put place value).second : Call K V σ Unit) :=
  withinSecond (withinPut follows apart _ _ fun entries => (beside entries (some value)).apart)

theorem mindsRecordGone {place : Bytes}
    (beside : ∀ entries value?, Beside entries (Entries.assign entries place value?)) :
    Minds view apart ((store.remove place).second : Call K V σ Unit) :=
  withinSecond (withinRemove follows apart _ fun entries => (beside entries none).apart)

theorem withinFlush : store.flush.Within view view :=
  withinTold (fun _ => ()) id id
    (fun s => (follows.flush s).weaken (fun _ _ h => ⟨rfl, h⟩) fun _ no => no.1) fun _ => rfl

theorem withinClear : store.clear.Within view fun _ => () :=
  withinTold (fun _ => ()) (fun _ => .empty) (fun _ => ())
    (fun s => (follows.clear s).weaken (fun _ _ h => ⟨rfl, h⟩) fun _ no => no.1) fun _ => rfl

theorem mindsClear : Minds view (Function.const Entries ()) (clear store : Call K V σ Unit) :=
  withinBind mindsNow fun _ => withinBind (mindsChange _) fun _ =>
    withinBind (withinSecond (withinClear follows)) fun _ =>
      withinSecond (withinPut follows (Function.const Entries ()) _ _ fun _ => rfl)

variable [DecidableEq K] [DecidableEq V] [Wire K] [Wire V]

omit [DecidableEq K] in
theorem withinLoad (key : K) : (load store key : StoreCall σ (Option (Occurrences V))).Within view view := by
  refine withinBind (withinGet follows _) fun bytes? => ?_
  cases bytes? with
  | none => exact withinPure
  | some bytes => exact withinMap (withinLift _)

theorem mindsFetch (key : K) : Minds view id (fetch store key : Call K V σ Unit) := by
  refine withinBind mindsNow fun index => ?_
  split
  · exact withinBind (withinSecond (withinLoad follows key)) fun _ => mindsChange _
  · exact withinPure

omit [DecidableEq K] [DecidableEq V] [Wire V] in
theorem mindsKeysOf (file : FileId) : Minds view id (keysOf store file : Call K V σ (List K)) := by
  refine withinBind mindsNow fun index => ?_
  cases index.forward.get? file with
  | some keys => exact withinPure
  | none =>
    dsimp only
    split
    · exact withinPure
    · refine withinBind (withinSecond (withinGet follows _)) fun bytes? => ?_
      cases bytes? with
      | none => exact withinPure
      | some bytes => exact withinLift _

theorem mindsUpdate (file : FileId) (entries : List (K × V)) : Minds view id (update store file entries) :=
  withinBind (mindsKeysOf follows file) fun _ =>
    withinBind (withinForM (mindsFetch follows)) fun _ => mindsChange _

theorem mindsRemoveFile (file : FileId) : Minds view id (removeFile store file : Call K V σ Bool) :=
  withinBind (mindsKeysOf follows file) fun _ =>
    withinBind (withinForM (mindsFetch follows)) fun _ => withinBind (mindsChange _) fun _ => withinPure

theorem mindsGet (key : K) : Minds view id (get store key : Call K V σ (Occurrences V)) := by
  refine withinBind mindsNow fun index => ?_
  cases index.containers.get? key with
  | some container => exact withinPure
  | none =>
    refine withinBind (withinSecond (withinLoad follows key)) fun container? => ?_
    cases container? with
    | none => exact withinPure
    | some container => exact withinBind (mindsChange _) fun _ => withinPure

theorem mindsWriteKey (key : K) : Minds view apart (writeKey store key : Call K V σ Unit) := by
  have beside := fun entries => besideKey entries key
  refine withinBind mindsNow fun index => ?_
  dsimp only
  split
  · exact withinBind (mindsRecordGone follows beside) fun _ => mindsChange _
  · exact withinBind (mindsRecordPut follows beside _) fun _ => mindsChange _

omit [DecidableEq K] [DecidableEq V] [Wire V] in
theorem mindsWriteFile (file : FileId) : Minds view apart (writeFile store file : Call K V σ Unit) := by
  have beside := fun entries => besideFile entries file
  refine withinBind mindsNow fun index => ?_
  cases index.forward.get? file with
  | none => exact withinBind (mindsRecordGone follows beside) fun _ => mindsChange _
  | some keys => exact withinBind (mindsRecordPut follows beside _) fun _ => mindsChange _

theorem mindsFlush : Minds view apart (flush store : Call K V σ Unit) :=
  withinBind mindsNow fun _ => withinBind (withinForM (mindsWriteKey follows)) fun _ =>
    withinBind mindsNow fun _ => withinBind (withinForM (mindsWriteFile follows)) fun _ =>
      withinSecond ((withinFlush follows).part apart)

end
end KeyIndex
end SymbolCatalog
