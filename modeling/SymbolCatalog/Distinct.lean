/-! Lists in which nothing stands twice, in the order of first occurrence. Adding something that is
there already changes nothing. -/
namespace SymbolCatalog
variable {α : Type} [DecidableEq α]

def addNew (items : List α) (a : α) : List α := if a ∈ items then items else items ++ [a]

def addAllNew (items more : List α) : List α := more.foldl addNew items

@[simp] theorem mem_addNew {items : List α} {a b : α} : b ∈ addNew items a ↔ b ∈ items ∨ b = a := by
  unfold addNew
  split
  · next h => exact ⟨.inl, fun o => o.elim id (fun e => e ▸ h)⟩
  · simp

theorem nodup_addNew {items : List α} (h : items.Nodup) (a : α) : (addNew items a).Nodup := by
  unfold addNew
  split
  · exact h
  · next ha =>
    refine List.nodup_append.2 ⟨h, by simp, fun x hx y hy => ?_⟩
    rintro rfl
    exact ha (List.mem_singleton.1 hy ▸ hx)

@[simp] theorem mem_addAllNew {items more : List α} {b : α} :
    b ∈ addAllNew items more ↔ b ∈ items ∨ b ∈ more := by
  induction more generalizing items with
  | nil => simp [addAllNew]
  | cons a more ih =>
    rw [addAllNew, List.foldl_cons, ← addAllNew, ih]
    simp [or_assoc]

theorem nodup_addAllNew {items : List α} (h : items.Nodup) (more : List α) :
    (addAllNew items more).Nodup := by
  induction more generalizing items with
  | nil => exact h
  | cons a more ih => exact ih (nodup_addNew h a)

end SymbolCatalog
