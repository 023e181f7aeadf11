import SymbolCatalog.Proofs.Ends
import SymbolCatalog.Proofs.Store.Lookup
import SymbolCatalog.Store.Probe

/-! Stores whose calls do what they say to a dictionary, at once, or fail and leave it as it was.
`fails` tells whether a call may fail at all; any call may fail at any time then. -/
namespace SymbolCatalog
variable {σ : Type}

structure Store.Follows (store : Store σ) (view : σ → Entries) (fails : Prop) : Prop where
  get : ∀ key s, (store.get key).Ends s
    (fun found s' => view s' = view s ∧ found = (view s).get? key)
    fun s' => fails ∧ view s' = view s
  put : ∀ key value s, (store.put key value).Ends s
    (fun _ s' => view s' = (view s).insert key value)
    fun s' => fails ∧ view s' = view s
  remove : ∀ key s, (store.remove key).Ends s
    (fun _ s' => view s' = (view s).erase key)
    fun s' => fails ∧ view s' = view s
  keysFrom : ∀ start s, (store.keysFrom start).Ends s
    (fun found s' => view s' = view s ∧
      found = (view s).keys.filter (Bytes.startsWith · start))
    fun s' => fails ∧ view s' = view s
  flush : ∀ s, store.flush.Ends s (fun _ s' => view s' = view s)
    fun s' => fails ∧ view s' = view s
  clear : ∀ s, store.clear.Ends s (fun _ s' => view s' = .empty)
    fun s' => fails ∧ view s' = view s

structure Store.FollowsUnder (store : Store σ) (family : Bytes) (view : σ → Entries) (fails : Prop) : Prop where
  put : ∀ rest value s, (store.put (family ++ rest) value).Ends s
    (fun _ s' => view s' = (view s).insert (family ++ rest) value)
    fun s' => fails ∧ view s' = view s
  remove : ∀ rest s, (store.remove (family ++ rest)).Ends s
    (fun _ s' => view s' = (view s).erase (family ++ rest))
    fun s' => fails ∧ view s' = view s

theorem Store.Follows.under {store : Store σ} {view : σ → Entries} {fails : Prop}
    (follows : store.Follows view fails) (family : Bytes) : store.FollowsUnder family view fails :=
  ⟨fun _ => follows.put _, fun _ => follows.remove _⟩

theorem Store.Follows.may {store : Store σ} {view : σ → Entries} {fails : Prop} (follows : store.Follows view fails) :
    store.Follows view True where
  get key s := (follows.get key s).weaken (fun _ _ => id) fun _ given => ⟨trivial, given.2⟩
  put key value s := (follows.put key value s).weaken (fun _ _ => id) fun _ given => ⟨trivial, given.2⟩
  remove key s := (follows.remove key s).weaken (fun _ _ => id) fun _ given => ⟨trivial, given.2⟩
  keysFrom start s := (follows.keysFrom start s).weaken (fun _ _ => id) fun _ given => ⟨trivial, given.2⟩
  flush s := (follows.flush s).weaken (fun _ _ => id) fun _ given => ⟨trivial, given.2⟩
  clear s := (follows.clear s).weaken (fun _ _ => id) fun _ given => ⟨trivial, given.2⟩

theorem memoryFollows : memoryStore.Follows id False where
  get _ _ := ⟨rfl, rfl⟩
  put _ _ _ := rfl
  remove _ _ := rfl
  keysFrom start s := ⟨rfl, s.keysFromFiltered start⟩
  flush _ := rfl
  clear _ := rfl

def refusingStore (refuses : Bytes → Bool) : Store Entries :=
  { memoryStore with
    put := fun key value => if refuses key then throw (.io .other) else memoryStore.put key value
    remove := fun key => if refuses key then throw (.io .other) else memoryStore.remove key
    flush := throw (.io .other) }

theorem refusingPut {refuses : Bytes → Bool} {key : Bytes} (refused : refuses key = true) (value : Bytes)
    (entries : Entries) : ((refusingStore refuses).put key value).Ends entries (fun _ _ => False) (· = entries) := by
  unfold refusingStore
  dsimp only
  rw [if_pos refused]
  rfl

theorem refusingRemove {refuses : Bytes → Bool} {key : Bytes} (refused : refuses key = true) (entries : Entries) :
    ((refusingStore refuses).remove key).Ends entries (fun _ _ => False) (· = entries) := by
  unfold refusingStore
  dsimp only
  rw [if_pos refused]
  rfl

theorem refusingUnder {refuses : Bytes → Bool} {family : Bytes} (free : ∀ rest, refuses (family ++ rest) = false) :
    (refusingStore refuses).FollowsUnder family id False where
  put rest value entries := by
    unfold refusingStore
    dsimp only
    rw [free rest]
    rfl
  remove rest entries := by
    unfold refusingStore
    dsimp only
    rw [free rest]
    rfl

theorem refusingFollows (refuses : Bytes → Bool) : (refusingStore refuses).Follows id True where
  get _ _ := ⟨rfl, rfl⟩
  put key value entries := by
    by_cases refused : refuses key = true
    · exact (refusingPut refused value entries).weaken (fun _ _ => False.elim) fun _ same => ⟨trivial, same⟩
    · unfold refusingStore
      dsimp only
      rw [if_neg refused]
      rfl
  remove key entries := by
    by_cases refused : refuses key = true
    · exact (refusingRemove refused entries).weaken (fun _ _ => False.elim) fun _ same => ⟨trivial, same⟩
    · unfold refusingStore
      dsimp only
      rw [if_neg refused]
      rfl
  keysFrom start entries := ⟨rfl, entries.keysFromFiltered start⟩
  flush _ := ⟨trivial, rfl⟩
  clear _ := rfl

def Store.sighted (store : Store σ) (view : σ → Entries) : Store σ :=
  { store with
    get := fun key => return (view (← getThe σ)).get? key
    keys := return (view (← getThe σ)).keys
    keysFrom := fun start => return (view (← getThe σ)).keys.filter (Bytes.startsWith · start) }

structure Store.Overlooks (store : Store σ) (view : σ → Entries) : Prop where
  follows : store.Follows view True
  writes : (store.sighted view).Follows view False

def flakily {α : Type} (f : Entries → α) : StoreCall (List Bool × Entries) α := fun (misses, entries) =>
  (if misses.headD false then .error (.io .other) else .ok (f entries), misses.tail, entries)

def flakyStore : Store (List Bool × Entries) :=
  { memoryStore.on (·.2) fun entries state => (state.1, entries) with
    get := fun key => flakily (·.get? key)
    keys := flakily (·.keys)
    keysFrom := fun start => flakily (·.keysFrom start) }

theorem endsFlakily {α : Type} (f : Entries → α) (state : List Bool × Entries) :
    (flakily f).Ends state (fun found after => after.2 = state.2 ∧ found = f state.2)
      fun after => True ∧ after.2 = state.2 := by
  obtain ⟨misses, entries⟩ := state
  rcases misses with _ | ⟨_ | _, misses⟩
  · exact ⟨rfl, rfl⟩
  · exact ⟨rfl, rfl⟩
  · exact ⟨trivial, rfl⟩

theorem flakyOverlooks : flakyStore.Overlooks (·.2) where
  follows := {
    get := fun key => endsFlakily (·.get? key)
    put := fun _ _ _ => rfl
    remove := fun _ _ => rfl
    keysFrom := fun start state => state.2.keysFromFiltered start ▸ endsFlakily (·.keysFrom start) state
    flush := fun _ => rfl
    clear := fun _ => rfl }
  writes := {
    get := fun _ _ => ⟨rfl, rfl⟩
    put := fun _ _ _ => rfl
    remove := fun _ _ => rfl
    keysFrom := fun _ _ => ⟨rfl, rfl⟩
    flush := fun _ => rfl
    clear := fun _ => rfl }

/-! A store that is probed does what the store below does, and may fail besides. -/

variable {store : Store σ} {view : σ → Entries} {fails : Prop}

open ExceptT in
theorem Probe.endsGuarded {α : Type} {kind : CallKind} {key? : Option Bytes} {call : StoreCall σ α}
    {probed : Probe × σ} {done : α → σ → Prop}
    (h : call.Ends probed.2 done fun s' => fails ∧ view s' = view probed.2) :
    (guarded kind key? call).Ends probed (fun a after => done a after.2)
      fun after => True ∧ view after.2 = view probed.2 := by
  unfold guarded
  refine endsBind (show Ends (getThe (Probe × σ)) _ _ _ from endsBind ?_)
  change Ends (ite _ _ _) (_, probed.2) _ _
  split
  · exact ⟨trivial, rfl⟩
  · exact StoreCall.endsSecond (h.weaken (fun _ _ => id) fun _ given => ⟨trivial, given.2⟩)

theorem Store.Follows.probed (follows : store.Follows view fails)
    (keys : ∀ s, store.keys.Ends s (fun found s' => view s' = view s ∧ found = (view s).keys)
      fun s' => fails ∧ view s' = view s) :
    (Probe.wrap store).Follows (fun probed => view probed.2) True where
  get key s := Probe.endsGuarded (follows.get key s.2)
  put key value s := Probe.endsGuarded (follows.put key value s.2)
  remove key s := Probe.endsGuarded (follows.remove key s.2)
  keysFrom start s := by
    refine ExceptT.endsBind ((Probe.endsGuarded (keys s.2)).weaken ?_ fun _ => id)
    intro found after ⟨same, all⟩
    subst all
    exact ExceptT.endsPure ⟨same, rfl⟩
  flush s := Probe.endsGuarded (follows.flush s.2)
  clear s := Probe.endsGuarded (follows.clear s.2)

theorem probeFollows : (Probe.wrap memoryStore).Follows (·.2) True :=
  memoryFollows.probed fun _ => ⟨rfl, rfl⟩

end SymbolCatalog
