import SymbolCatalog.Store.Basic

/-! What a call comes to that changes a state and may fail. One that fails is described by its state
alone, not by its error. Calls are taken apart at their binds. -/
namespace ExceptT
variable {ε σ α β ι : Type}

def Ends (call : ExceptT ε (StateM σ) α) (s : σ) (done : α → σ → Prop) (failed : σ → Prop) : Prop :=
  match call s with
  | (.ok a, s) => done a s
  | (.error _, s) => failed s

theorem endsPure {a : α} {s : σ} {done : α → σ → Prop} {failed : σ → Prop} (h : done a s) :
    Ends (pure a : ExceptT ε (StateM σ) α) s done failed := h

theorem Ends.weaken {call : ExceptT ε (StateM σ) α} {s : σ} {done done' : α → σ → Prop}
    {failed failed' : σ → Prop} (h : call.Ends s done failed)
    (answers : ∀ a s, done a s → done' a s) (failures : ∀ s, failed s → failed' s) :
    call.Ends s done' failed' := by
  unfold Ends at h ⊢
  split at h
  · exact answers _ _ h
  · exact failures _ h

theorem runBind (call : ExceptT ε (StateM σ) α) (next : α → ExceptT ε (StateM σ) β) (s : σ) :
    (call >>= next) s = match call s with
      | (.ok a, s) => next a s
      | (.error e, s) => (.error e, s) := by
  change ExceptT.bindCont next (call s).1 (call s).2 = _
  rcases call s with ⟨a | e, s⟩ <;> rfl

theorem endsBind {call : ExceptT ε (StateM σ) α} {next : α → ExceptT ε (StateM σ) β} {s : σ}
    {done : β → σ → Prop} {failed : σ → Prop}
    (h : call.Ends s (fun a s => (next a).Ends s done failed) failed) :
    (call >>= next).Ends s done failed := by
  unfold Ends at h ⊢
  rw [runBind]
  rcases hc : call s with ⟨e | a, s'⟩ <;> rw [hc] at h <;> exact h

theorem endsMap {call : ExceptT ε (StateM σ) α} {f : α → β} {s : σ} {done : β → σ → Prop}
    {failed : σ → Prop} (h : call.Ends s (fun a s => done (f a) s) failed) :
    Ends (f <$> call) s done failed := by
  rw [map_eq_pure_bind]
  exact endsBind h

theorem runTry (call : ExceptT ε (StateM σ) α) (handler : ε → ExceptT ε (StateM σ) α) (s : σ) :
    (tryCatch call handler : ExceptT ε (StateM σ) α) s = match call s with
      | (.ok a, s) => (.ok a, s)
      | (.error e, s) => handler e s := by
  change (match (call s).1 with | .ok a => pure (.ok a) | .error e => handler e : StateM σ (Except ε α)) (call s).2 = _
  rcases call s with ⟨a | e, s⟩ <;> rfl

theorem endsTry {call : ExceptT ε (StateM σ) α} {handler : ε → ExceptT ε (StateM σ) α} {s : σ}
    {done : α → σ → Prop} {failed : σ → Prop}
    (h : call.Ends s done fun s => ∀ e, (handler e).Ends s done failed) :
    Ends (tryCatch call handler) s done failed := by
  unfold Ends at h ⊢
  rw [runTry]
  rcases hc : call s with ⟨e | a, s'⟩ <;> rw [hc] at h
  · exact h e
  · exact h

theorem endsForM {items : List ι} {body : ι → ExceptT ε (StateM σ) Unit} {s : σ} {done : Unit → σ → Prop}
    {failed : σ → Prop} (before : List ι → σ → Prop) (start : before items s)
    (last : ∀ s, before [] s → done () s)
    (step : ∀ item rest s, before (item :: rest) s →
      (body item).Ends s (fun _ s => before rest s) failed) :
    Ends (items.forM body) s done failed := by
  induction items generalizing s with
  | nil => exact last _ start
  | cons item rest ih => exact endsBind ((step item rest s start).weaken (fun _ _ => ih) fun _ => id)

/- A loop that fails at its first item, if it has one. -/
theorem endsForMRefused {items : List ι} {body : ι → ExceptT ε (StateM σ) Unit} {s : σ} {done : Unit → σ → Prop}
    {failed : σ → Prop} (none : items = [] → done () s)
    (refused : ∀ item, (body item).Ends s (fun _ _ => False) failed) : Ends (items.forM body) s done failed := by
  cases items with
  | nil => exact none rfl
  | cons item rest => exact endsBind ((refused item).weaken (fun _ _ => False.elim) fun _ => id)

theorem endsMapM {items : List ι} {body : ι → ExceptT ε (StateM σ) β} {answer : ι → β}
    {failed : σ → Prop}
    (each : ∀ item ∈ items, ∀ s, (body item).Ends s (fun b _ => b = answer item) failed) (s : σ) :
    Ends (items.mapM body) s (fun answers _ => answers = items.map answer) failed := by
  induction items generalizing s with
  | nil => exact endsPure rfl
  | cons item rest ih =>
    rw [List.mapM_cons]
    refine endsBind ((each item (.head _) s).weaken ?_ fun _ => id)
    intro b s same
    subst same
    refine endsBind ((ih (fun item mem => each item (.tail _ mem)) s).weaken ?_ fun _ => id)
    intro answers s same
    subst same
    exact endsPure rfl

theorem Ends.answered {call : ExceptT ε (StateM σ) α} {s s' : σ} {a : α} {done : α → σ → Prop}
    {failed : σ → Prop} (h : call.Ends s done failed) (run : call s = (.ok a, s')) : done a s' := by
  unfold Ends at h
  rwa [run] at h

theorem Ends.stopped {call : ExceptT ε (StateM σ) α} {s s' : σ} {e : ε} {done : α → σ → Prop}
    {failed : σ → Prop} (h : call.Ends s done failed) (run : call s = (.error e, s')) : failed s' := by
  unfold Ends at h
  rwa [run] at h

theorem Ends.always {call : ExceptT ε (StateM σ) α} {s : σ} {good : σ → Prop}
    (h : call.Ends s (fun _ s => good s) good) : good (call s).2 := by
  unfold Ends at h
  rcases hc : call s with ⟨e | a, s'⟩ <;> rw [hc] at h <;> exact h

theorem Ends.succeeds {call : ExceptT ε (StateM σ) α} {s : σ} {done : α → σ → Prop}
    (h : call.Ends s done fun _ => False) : ∃ a s', call s = (.ok a, s') ∧ done a s' := by
  unfold Ends at h
  split at h
  · next a s' run => exact ⟨a, s', run, h⟩
  · exact h.elim

theorem Ends.surely {call : ExceptT ε (StateM σ) α} {s : σ} {done : α → σ → Prop} {failed : σ → Prop}
    (h : call.Ends s done fun s => False ∧ failed s) : ∃ a s', call s = (.ok a, s') ∧ done a s' :=
  (h.weaken (fun _ _ => id) fun _ no => no.1).succeeds

theorem Ends.refuses {call : ExceptT ε (StateM σ) α} {s : σ} {failed : σ → Prop}
    (h : call.Ends s (fun _ _ => False) failed) : ∃ e s', call s = (.error e, s') ∧ failed s' := by
  unfold Ends at h
  split at h
  · exact h.elim
  · next e s' run => exact ⟨e, s', run, h⟩

theorem Ends.and {call : ExceptT ε (StateM σ) α} {s : σ} {done done' : α → σ → Prop} {failed failed' : σ → Prop}
    (h : call.Ends s done failed) (h' : call.Ends s done' failed') :
    call.Ends s (fun a s => done a s ∧ done' a s) fun s => failed s ∧ failed' s := by
  unfold Ends at h h' ⊢
  rcases hc : call s with ⟨e | a, s'⟩ <;> rw [hc] at h h' <;> exact ⟨h, h'⟩

theorem endsRun (call : ExceptT ε (StateM σ) α) (s : σ) :
    call.Ends s (fun a s' => call s = (.ok a, s')) fun s' => ∃ e, call s = (.error e, s') := by
  unfold Ends
  rcases hc : call s with ⟨e | a, s'⟩
  · exact ⟨e, rfl⟩
  · rfl

theorem Ends.meets {call : ExceptT ε (StateM σ) α} {s : σ} {done done' : α → σ → Prop} {failed : σ → Prop}
    (h : call.Ends s done fun _ => False) (h' : call.Ends s done' failed) :
    ∃ a s', done a s' ∧ done' a s' := by
  obtain ⟨a, s', run, told⟩ := h.succeeds
  exact ⟨a, s', told, h'.answered run⟩

end ExceptT

namespace SymbolCatalog.StoreCall
open ExceptT
variable {σ τ α : Type}

theorem endsSecond {call : StoreCall σ α} {t : τ} {s : σ} {done : α → τ × σ → Prop}
    {failed : τ × σ → Prop}
    (h : call.Ends s (fun a s => done a (t, s)) fun s => failed (t, s)) :
    (call.second : StoreCall (τ × σ) α).Ends (t, s) done failed := by
  have run : (call.second : StoreCall (τ × σ) α) (t, s) = ((call s).1, (t, (call s).2)) := rfl
  unfold Ends at h ⊢
  rw [run]
  rcases hc : call s with ⟨e | a, s'⟩ <;> rw [hc] at h <;> exact h

end SymbolCatalog.StoreCall
