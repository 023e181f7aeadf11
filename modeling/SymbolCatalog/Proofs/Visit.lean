import Mathlib.Data.List.Nodup
import SymbolCatalog.Container

/-! What a visitor sees of a list: its elements in order, up to the first one after which it has
seen enough. -/
namespace SymbolCatalog
variable {σ α : Type} {visitor : σ → α → Bool × σ}

inductive Calls (visitor : σ → α → Bool × σ) : σ → List (α × Bool) → σ → Prop where
  | none (s) : Calls visitor s [] s
  | next {s s' last a answer calls} (call : visitor s a = (answer, s')) (rest : Calls visitor s' calls last) :
      Calls visitor s ((a, answer) :: calls) last

structure EnumeratesBy (wanted : α → Prop) (visitor : σ → α → Bool × σ) (start : σ) (outcome : Bool × σ)
    (calls : List (α × Bool)) : Prop where
  made : Calls visitor start calls outcome.2
  once : (calls.map (·.1)).Nodup
  each : ∀ call ∈ calls, wanted call.1
  completed : outcome.1 = true ↔ ∀ call ∈ calls, call.2 = true
  /- There is no call after the first one that the visitor answers with no. -/
  stopped : ∀ before call after, calls = before ++ call :: after → call.2 = false → after = []
  whole : outcome.1 = true → ∀ a, wanted a → a ∈ calls.map (·.1)

def Enumerates (wanted : α → Prop) (visitor : σ → α → Bool × σ) (start : σ) (outcome : Bool × σ) : Prop :=
  ∃ calls, EnumeratesBy wanted visitor start outcome calls

theorem visitCalls (visitor : σ → α → Bool × σ) (items : List α) (start : σ) (distinct : items.Nodup) :
    Enumerates (· ∈ items) visitor start (visitAll visitor start items) := by
  induction items generalizing start with
  | nil =>
    exact ⟨[], .none start, .nil, by simp, by simp [visitAll], by simp, fun _ _ mem => absurd mem List.not_mem_nil⟩
  | cons a rest ih =>
    obtain ⟨new, distinct⟩ := List.nodup_cons.1 distinct
    rcases call : visitor start a with ⟨_ | _, s⟩
    · have stops : visitAll visitor start (a :: rest) = (false, s) := by rw [visitAll, call]
      rw [stops]
      refine ⟨[(a, false)], .next call (.none s), List.nodup_singleton a, by simp, by simp, ?_, by simp⟩
      intro before last after same _
      cases before with
      | nil => exact (List.cons.inj same).2.symm
      | cons first others => simp at same
    · have goes : visitAll visitor start (a :: rest) = visitAll visitor s rest := by rw [visitAll, call]
      rw [goes]
      obtain ⟨calls, shown⟩ := ih s distinct
      refine ⟨(a, true) :: calls, .next call shown.made, ?_, ?_, ?_, ?_, ?_⟩
      · refine List.nodup_cons.2 ⟨fun again => ?_, shown.once⟩
        obtain ⟨other, mem, rfl⟩ := List.mem_map.1 again
        exact new (shown.each other mem)
      · exact List.forall_mem_cons.2 ⟨.head _, fun other mem => .tail _ (shown.each other mem)⟩
      · exact shown.completed.trans (by simp)
      · intro before last after same no
        cases before with
        | nil =>
          rw [(List.cons.inj same).1.symm] at no
          cases no
        | cons first others => exact shown.stopped others last after (List.cons.inj same).2 no
      · intro done other mem
        rcases List.mem_cons.1 mem with rfl | mem
        · exact .head _
        · exact .tail _ (shown.whole done other mem)

theorem visitEnumerates {wanted : α → Prop} (visitor : σ → α → Bool × σ) {items : List α} (start : σ)
    (distinct : items.Nodup) (same : ∀ a, a ∈ items ↔ wanted a) :
    Enumerates wanted visitor start (visitAll visitor start items) := by
  have all : (· ∈ items) = wanted := funext fun a => propext (same a)
  exact all ▸ visitCalls visitor items start distinct

end SymbolCatalog
