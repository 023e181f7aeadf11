import SymbolCatalog.Proofs.Ends

/-! Calls that look at one part of the state alone and leave another part as it is: from states that
look alike they give the same answer, the same fault included. -/
namespace ExceptT
variable {ε σ α β ι ω τ υ : Type} {seen : σ → ω} {kept : σ → τ}

def Within (seen : σ → ω) (kept : σ → τ) (call : ExceptT ε (StateM σ) α) : Prop :=
  ∀ s s', seen s = seen s' →
    (call s).1 = (call s').1 ∧ seen (call s).2 = seen (call s').2 ∧ kept (call s).2 = kept s

theorem withinPure {a : α} : Within seen kept (pure a : ExceptT ε (StateM σ) α) :=
  fun _ _ alike => ⟨rfl, alike, rfl⟩

theorem withinThrow {e : ε} : Within seen kept (throw e : ExceptT ε (StateM σ) α) :=
  fun _ _ alike => ⟨rfl, alike, rfl⟩

theorem withinBind {call : ExceptT ε (StateM σ) α} {next : α → ExceptT ε (StateM σ) β}
    (h : call.Within seen kept) (each : ∀ a, (next a).Within seen kept) : (call >>= next).Within seen kept := by
  intro s s' alike
  obtain ⟨answer, after, stays⟩ := h s s' alike
  rw [runBind, runBind]
  rcases hc : call s with ⟨e | a, t⟩ <;> rcases hc' : call s' with ⟨e' | a', t'⟩ <;>
    rw [hc, hc'] at answer after <;> rw [hc] at stays <;> cases answer
  · exact ⟨rfl, after, stays⟩
  · obtain ⟨answer, after, stays'⟩ := each _ t t' after
    exact ⟨answer, after, stays'.trans stays⟩

theorem withinMap {call : ExceptT ε (StateM σ) α} {f : α → β} (h : call.Within seen kept) :
    (f <$> call).Within seen kept := by
  rw [map_eq_pure_bind]
  exact withinBind h fun _ => withinPure

theorem withinTry {call : ExceptT ε (StateM σ) α} {handler : ε → ExceptT ε (StateM σ) α}
    (h : call.Within seen kept) (each : ∀ e, (handler e).Within seen kept) :
    (tryCatch call handler).Within seen kept := by
  intro s s' alike
  obtain ⟨answer, after, stays⟩ := h s s' alike
  rw [runTry, runTry]
  rcases hc : call s with ⟨e | a, t⟩ <;> rcases hc' : call s' with ⟨e' | a', t'⟩ <;>
    rw [hc, hc'] at answer after <;> rw [hc] at stays <;> cases answer
  · obtain ⟨answer, after, stays'⟩ := each _ t t' after
    exact ⟨answer, after, stays'.trans stays⟩
  · exact ⟨rfl, after, stays⟩

theorem withinForM {items : List ι} {body : ι → ExceptT ε (StateM σ) Unit}
    (each : ∀ item, (body item).Within seen kept) : (items.forM body).Within seen kept := by
  induction items with
  | nil => exact withinPure
  | cons item rest ih => exact withinBind (each item) fun _ => ih

theorem withinMapM {items : List ι} {body : ι → ExceptT ε (StateM σ) β}
    (each : ∀ item, (body item).Within seen kept) : (items.mapM body).Within seen kept := by
  induction items with
  | nil => exact withinPure
  | cons item rest ih =>
    rw [List.mapM_cons]
    exact withinBind (each item) fun _ => withinBind ih fun _ => withinPure

theorem Within.ends {call : ExceptT ε (StateM σ) α} (h : call.Within seen kept) (s : σ) :
    call.Ends s (fun _ s' => kept s' = kept s) fun s' => kept s' = kept s := by
  have stays := (h s s rfl).2.2
  unfold Ends
  rcases hc : call s with ⟨e | a, s'⟩ <;> rw [hc] at stays <;> exact stays

theorem Within.part {call : ExceptT ε (StateM σ) α} (h : call.Within seen kept) (f : τ → υ) :
    call.Within seen fun s => f (kept s) := by
  intro s s' alike
  obtain ⟨answer, after, stays⟩ := h s s' alike
  exact ⟨answer, after, congrArg f stays⟩

end ExceptT
