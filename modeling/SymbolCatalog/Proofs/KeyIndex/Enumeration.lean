import SymbolCatalog.Proofs.KeyIndex.Ledger
import SymbolCatalog.Proofs.Visit

/-! The keys that an index shows a visitor, after any run on a store that does not fail: those with an
occurrence in the scope now, whether the index holds them, the store has them, or both differ. -/
namespace SymbolCatalog.KeyIndex
open ExceptT
variable {K V σ : Type} [DecidableEq K] [DecidableEq V] [Wire K] [Wire V]
variable {store : Store σ} {view : σ → Entries}

/-- Keys are enumerated exactly. After any run from an empty index on a store that does not fail,
whatever the scope, the filter and the visitor, the visitor is shown keys that the filter accepts and
that now occur in a file of the scope, each once; it is not asked again after it said no, and if it
never did it was shown all of them. -/
theorem keysEnumerated (follows : store.Follows view False) (version : UInt32) {s : σ}
    (other : (view s).get? versionKey ≠ some (stamp version)) {ops : List (Op K V)}
    (admitted : (Ledger.opened version).AdmitsAll ops) :
    ∃ (index : KeyIndex K V) (s₁ : σ) (answers : List (Answer K V)) (state : KeyIndex K V × σ),
      openOn store version s = (.ok index, s₁) ∧ ops.mapM (perform store) (index, s₁) = (.ok answers, state) ∧
      ∀ {α : Type} (scope : Scope) (filter? : Option (K → Bool)) (visitor : α → K → Bool × α) (start : α),
        ∃ visited after,
          visitKeys (V := V) store scope (filter?.getD fun _ => true) visitor start state = (.ok visited, after) ∧
          Enumerates (fun key => (∀ filter ∈ filter?, filter key = true) ∧ ∃ file value,
              (key, value) ∈ ((Ledger.opened version).run ops).files file ∧ scope file = true)
            visitor start (visited.completed, visited.result) := by
  obtain ⟨index, s₁, opened, fresh⟩ := (endsFresh (K := K) (V := V) follows other).succeeds
  obtain ⟨answers, state, run, -, rep⟩ := (endsRun follows fresh admitted).succeeds
  refine ⟨index, s₁, answers, state, opened, run, fun scope filter? visitor start => ?_⟩
  obtain ⟨visited, after, visit, -, -, keys, ⟨distinct, shown⟩, same⟩ :=
    ((rep.holds.tells.endsVisit follows scope (filter?.getD fun _ => true) visitor start).weaken
      (fun _ _ => id) fun _ no => no.1).succeeds
  refine ⟨visited, after, visit, same ▸ visitEnumerates visitor start distinct fun key => ?_⟩
  rw [shown]
  refine and_congr_left' ?_
  cases filter? with
  | none => simp
  | some filter => simp

def touchedRun : List (Op UInt32 UInt32) :=
  [.update ⟨1⟩ [(7, 70), (8, 80)], .update ⟨3⟩ [(9, 90)], .flush, .reopen 1, .get 7,
    .update ⟨2⟩ [(6, 60)], .removeFile ⟨3⟩]

theorem touchedFiles : ((Ledger.opened 1).run touchedRun).files =
    fun file => if file = ⟨1⟩ then [(7, 70), (8, 80)] else if file = ⟨2⟩ then [(6, 60)] else [] := by
  funext file
  change Contents.put (Contents.put (Contents.put (Contents.put _ _ _) _ _) _ _) _ _ file = _
  simp only [Contents.put]
  split_ifs <;> simp_all [Ledger.opened, Contents.none]

theorem touchedEnumerated : Entries.empty.get? versionKey ≠ some (stamp 1) ∧
    (Ledger.opened 1).AdmitsAll touchedRun ∧
    ∃ (index : KeyIndex UInt32 UInt32) (s₁ : Entries) (answers : List (Answer UInt32 UInt32))
        (state : KeyIndex UInt32 UInt32 × Entries),
      openOn memoryStore 1 Entries.empty = (.ok index, s₁) ∧
      touchedRun.mapM (perform memoryStore) (index, s₁) = (.ok answers, state) ∧
      ∃ visited after,
        visitKeys (V := UInt32) memoryStore .everywhere (· ≠ 7) (note fun _ => true) [] state = (.ok visited, after) ∧
        Enumerates (fun key => key = 6 ∨ key = 8) (note fun _ => true) [] (visited.completed, visited.result) := by
  have word : ∀ n : UInt32, Wire.ReadsBack n := Wire.readsBack_word
  have admitted : (Ledger.opened 1).AdmitsAll touchedRun := by
    have drawn : ∀ file entries, .update file entries ∈ touchedRun →
        ∀ p ∈ entries, p ∈ [(7, 70), (8, 80), (9, 90), (6, 60)] := by
      simp only [touchedRun, List.mem_cons, Op.update.injEq, reduceCtorEq, false_or, or_false, List.not_mem_nil]
      rintro file entries (⟨rfl, rfl⟩ | ⟨rfl, rfl⟩ | ⟨rfl, rfl⟩) <;> simp
    exact Ledger.admitsAmong (by decide) (fun p _ => ⟨word p.1, word p.2⟩) drawn (fun key _ => word key)
      (Contents.amongNone _) (Contents.amongNone _)
  have other : Entries.empty.get? versionKey ≠ some (stamp 1) := nofun
  obtain ⟨index, s₁, answers, state, opened, run, enumerated⟩ := keysEnumerated memoryFollows 1 other admitted
  obtain ⟨visited, after, visit, shown⟩ := enumerated .everywhere (some (· ≠ 7)) (note fun _ => true) []
  refine ⟨other, admitted, index, s₁, answers, state, opened, run, visited, after, visit, ?_⟩
  have now : ∀ key : UInt32, ((∀ filter ∈ some fun k => decide (k ≠ 7), filter key = true) ∧
      ∃ file value, (key, value) ∈ ((Ledger.opened 1).run touchedRun).files file ∧ Scope.everywhere file = true) ↔
      key = 6 ∨ key = 8 := by
    intro key
    rw [touchedFiles]
    constructor
    · rintro ⟨accepted, file, value, mem, -⟩
      dsimp only at mem
      split_ifs at mem <;> simp_all
    · rintro (rfl | rfl)
      · exact ⟨by simp, ⟨2⟩, 60, by simp, rfl⟩
      · exact ⟨by simp, ⟨1⟩, 80, by simp, rfl⟩
  rwa [funext fun key => propext (now key)] at shown

end SymbolCatalog.KeyIndex
