import SymbolCatalog.Proofs.KeyIndex.Ledger

/-! Runs that go on after a call of the store has failed. An operation that fails is as if it had
not been called, whatever it has read or written before. -/
namespace SymbolCatalog.KeyIndex
open ExceptT StoreCall
variable {K V σ τ α : Type}

def Op.isSteady : Op K V → Bool
  | .reopen _ | .clear => false
  | _ => true

structure Tellable [Wire K] [Wire V] (given : List (K × V)) : Prop where
  few : given.length < 2 ^ 64
  coded : ∀ p ∈ given, Wire.ReadsBack p.1 ∧ Wire.ReadsBack p.2

theorem tellableWords {given : List (UInt32 × UInt32)} (few : given.length < 2 ^ 64) : Tellable given :=
  ⟨few, fun p _ => ⟨Wire.readsBack_word p.1, Wire.readsBack_word p.2⟩⟩

def Op.Draws [Wire K] (given : List (K × V)) : Op K V → Prop
  | .update _ entries => ∀ p ∈ entries, p ∈ given
  | .get key => Wire.ReadsBack key
  | _ => True

def visitedBy (goesOn : List K → Bool) (all : List K) : Answer K V :=
  .visited (visitAll (note goesOn) [] all).1 (visitAll (note goesOn) [] all).2

/- The right answers of an index, by its contents and by what is told of a key. The keys of a visit may
come in any order. -/
inductive Judged (files : Contents K V) (told : K → Occurrences V → Prop) : Op K V → Answer K V → Prop
  | opened (version : UInt32) : Judged files told (.reopen version) .done
  | updated (file : FileId) (entries : List (K × V)) : Judged files told (.update file entries) .done
  | removed (file : FileId) : Judged files told (.removeFile file) (.removed !(files file).isEmpty)
  | found {key : K} {c : Occurrences V} (right : told key c) : Judged files told (.get key) (.found c)
  | visited {scope : Scope} {accepts : K → Bool} (goesOn : List K → Bool) {all : List K}
      (shown : Shown files scope accepts all) :
      Judged files told (.visit scope accepts goesOn) (visitedBy goesOn all)
  | flushed : Judged files told .flush .done
  | cleared : Judged files told .clear .done

theorem Ledger.judged {l : Ledger K V} {op : Op K V} {answer : Answer K V} (h : l.Answers op answer) :
    Judged l.files (fun key c => c.pairs.Nodup ∧ Shows c l.files key) op answer := by
  unfold Ledger.Answers at h
  split at h
  · exact .found h
  · next file had =>
    have told : had = !(l.files file).isEmpty := by
      rw [Bool.eq_iff_iff, h]
      simp
    rw [told]
    exact .removed file
  · next scope accepts goesOn completed keys =>
    obtain ⟨all, shown, noted⟩ := h
    have answer : (.visited completed keys : Answer K V) = visitedBy goesOn all := by
      unfold visitedBy
      rw [← noted]
    rw [answer]
    exact .visited goesOn shown
  · exact .opened _
  · exact .updated _ _
  · exact .flushed
  · exact .cleared
  · exact h.elim

inductive Agree (same : Occurrences V → Occurrences V → Prop) : Op K V → Answer K V → Answer K V → Prop
  | done (op : Op K V) : Agree same op .done .done
  | removed (file : FileId) (had : Bool) : Agree same (.removeFile file) (.removed had) (.removed had)
  | found (key : K) {c c' : Occurrences V} (agree : same c c') : Agree same (.get key) (.found c) (.found c')
  | visited (scope : Scope) (accepts : K → Bool) (goesOn : List K → Bool) {all all' : List K}
      (agree : all.Perm all') :
      Agree same (.visit scope accepts goesOn) (visitedBy goesOn all) (visitedBy goesOn all')

inductive AgreeAll (same : Occurrences V → Occurrences V → Prop) :
    List (Op K V) → List (Answer K V) → List (Answer K V) → Prop
  | nil : AgreeAll same [] [] []
  | cons {op : Op K V} {answer answer' : Answer K V} {ops : List (Op K V)} {answers answers' : List (Answer K V)}
      (first : Agree same op answer answer') (rest : AgreeAll same ops answers answers') :
      AgreeAll same (op :: ops) (answer :: answers) (answer' :: answers')

theorem shownPerm {files : Contents K V} {scope : Scope} {accepts : K → Bool} {keys keys' : List K}
    (h : Shown files scope accepts keys) (h' : Shown files scope accepts keys') : keys.Perm keys' :=
  (List.perm_ext_iff_of_nodup h.1 h'.1).2 fun key => (h.2 key).trans (h'.2 key).symm

theorem Judged.agree {files : Contents K V} {told : K → Occurrences V → Prop}
    {same : Occurrences V → Occurrences V → Prop} (one : ∀ key c c', told key c → told key c' → same c c')
    {op : Op K V} {answer answer' : Answer K V} (h : Judged files told op answer)
    (h' : Judged files told op answer') : Agree same op answer answer' := by
  cases h with
  | removed file =>
    cases h'
    exact .removed file _
  | found right =>
    cases h' with
    | found right' => exact .found _ (one _ _ _ right right')
  | visited goesOn shown =>
    cases h' with
    | visited _ shown' => exact .visited _ _ goesOn (shownPerm shown shown')
  | _ =>
    cases h'
    exact .done _

def SamePairs (c c' : Occurrences V) : Prop := c.pairs.Perm c'.pairs

theorem sameShows {a b : Account K V} {key : K} {c c' : Occurrences V} (shows : a.Shows c key)
    (shows' : b.Shows c' key) : SamePairs c c' ↔ ∀ file value, a.occurs key file value ↔ b.occurs key file value := by
  unfold SamePairs
  rw [List.perm_ext_iff_of_nodup c.pairsNodup c'.pairsNodup, Prod.forall]
  simp only [shows _ _, shows' _ _]

theorem Ledger.answersAgree {l : Ledger K V} {ops : List (Op K V)} {answers answers' : List (Answer K V)}
    (h : l.AnswersAll ops answers) (h' : l.AnswersAll ops answers') : AgreeAll SamePairs ops answers answers' := by
  induction ops generalizing l answers answers' with
  | nil =>
    cases answers with
    | nil =>
      cases answers' with
      | nil => exact .nil
      | cons => exact h'.elim
    | cons => exact h.elim
  | cons op ops ih =>
    cases answers with
    | nil => exact h.elim
    | cons answer answers =>
      cases answers' with
      | nil => exact h'.elim
      | cons answer' answers' =>
        refine .cons ((Ledger.judged h.1).agree ?_ (Ledger.judged h'.1)) (ih h.2 h'.2)
        intro key c c' ⟨distinct, shows⟩ ⟨distinct', shows'⟩
        exact (List.perm_ext_iff_of_nodup distinct distinct').2 fun p => (shows p.1 p.2).trans (shows' p.1 p.2).symm

/-! A visitor whose state stands beside the index, where it outlives a visit that fails. -/

def showAll (visitor : α → K → Bool × α) : List K → StoreCall (α × τ) Bool
  | [] => pure true
  | key :: rest => do
    let (goesOn, seen) := visitor (← getThe (α × τ)).1 key
    modifyThe (α × τ) fun (_, t) => (seen, t)
    if goesOn then showAll visitor rest else pure false

theorem showAllRun (visitor : α → K → Bool × α) (keys : List K) (seen : α) (t : τ) :
    showAll visitor keys (seen, t) =
      (.ok (visitAll visitor seen keys).1, (visitAll visitor seen keys).2, t) := by
  induction keys generalizing seen with
  | nil => rfl
  | cons key rest ih =>
    rw [visitAll]
    rcases shown : visitor seen key with ⟨goesOn, seen'⟩
    have step : showAll visitor (key :: rest) (seen, t) =
        (if goesOn then showAll visitor rest else pure false : StoreCall (α × τ) Bool) (seen', t) := by
      change (if (visitor seen key).1 then showAll visitor rest else pure false : StoreCall (α × τ) Bool)
        ((visitor seen key).2, t) = _
      rw [shown]
    rw [step]
    cases goesOn with
    | true => exact ih seen'
    | false => rfl

variable [DecidableEq K] [DecidableEq V] [Wire K] [Wire V]

theorem Tells.endsShown {store : Store σ} {view : σ → Entries} {fails : Prop} {index : KeyIndex K V} {s : σ}
    {a : Account K V} (h : Tells index (view s) a) (follows : store.Follows view fails) (scope : Scope)
    (accepts : K → Bool) (goesOn : List K → Bool) :
    (perform store (.visit scope accepts goesOn)).Ends (index, s)
      (fun answer after => after.1 = index ∧ view after.2 = view s ∧
        ∃ all, Visits a scope accepts all ∧ answer = visitedBy goesOn all)
      fun after => fails ∧ after.1 = index ∧ view after.2 = view s := by
  refine endsBind ((h.endsVisit follows scope accepts (note goesOn) []).weaken ?_ fun _ => id)
  intro visited after ⟨kept, same, all, shown, noted⟩
  refine endsPure ⟨kept, same, all, shown, ?_⟩
  unfold visitedBy
  rw [← noted]

def showKeys (store : Store σ) (scope : Scope) (accepts : K → Bool) (visitor : α → K → Bool × α) :
    StoreCall (α × KeyIndex K V × σ) Bool := do
  let found ← (collect (V := V) store accepts).second
  showAll visitor ((found.entries.filter (·.2.anyFile scope)).map (·.1))

theorem showKeysRun (store : Store σ) (scope : Scope) (accepts : K → Bool) (visitor : α → K → Bool × α)
    (start : α) (state : KeyIndex K V × σ) :
    showKeys store scope accepts visitor (start, state) =
      match visitKeys store scope accepts visitor start state with
      | (.ok visited, after) => (.ok visited.completed, visited.result, after)
      | (.error e, after) => (.error e, start, after) := by
  have collected : ((collect (V := V) store accepts : Call K V σ (Found K V)).second :
        StoreCall (α × KeyIndex K V × σ) (Found K V)) (start, state) =
      ((collect store accepts state).1, start, (collect store accepts state).2) := rfl
  unfold showKeys visitKeys
  rw [runBind, runBind, collected]
  rcases collect store accepts state with ⟨e | found, after⟩
  · rfl
  · exact showAllRun visitor _ start after

structure Event (K V : Type) where
  op : Op K V
  answer : Except StorageError (Answer K V)
  seen : List K

def attempt (store : Store σ) (op : Op K V) (state : KeyIndex K V × σ) : Event K V × KeyIndex K V × σ :=
  match op with
  | .visit scope accepts goesOn =>
    let (completed, seen, after) := showKeys store scope accepts (note goesOn) ([], state)
    (⟨op, completed.map (.visited · seen), seen⟩, after)
  | _ =>
    let (answer, after) := perform store op state
    (⟨op, answer, []⟩, after)

theorem attemptPerforms (store : Store σ) (op : Op K V) (state : KeyIndex K V × σ) :
    ∃ event, attempt store op state = (event, (perform store op state).2) ∧ event.op = op ∧
      event.answer = (perform store op state).1 ∧ (event.answer.toOption = none → event.seen = []) := by
  cases op with
  | visit scope accepts goesOn =>
    have visit : perform store (.visit scope accepts goesOn) state =
        match visitKeys store scope accepts (note goesOn) [] state with
        | (.ok visited, after) => (.ok (.visited visited.completed visited.result), after)
        | (.error e, after) => (.error e, after) := by
      refine (runBind _ _ state).trans ?_
      rcases visitKeys store scope accepts (note goesOn) [] state with ⟨e | visited, after⟩ <;> rfl
    have shown : attempt store (.visit scope accepts goesOn) state =
        match showKeys store scope accepts (note goesOn) ([], state) with
        | (completed, seen, after) =>
          (⟨.visit scope accepts goesOn, completed.map (.visited · seen), seen⟩, after) := rfl
    rw [shown, visit, showKeysRun]
    rcases visitKeys store scope accepts (note goesOn) [] state with ⟨e | visited, after⟩
    · exact ⟨_, rfl, rfl, rfl, fun _ => rfl⟩
    · exact ⟨_, rfl, rfl, rfl, nofun⟩
  | _ => exact ⟨_, rfl, rfl, rfl, fun _ => rfl⟩

def attemptAll (store : Store σ) : List (Op K V) → KeyIndex K V × σ → List (Event K V) × KeyIndex K V × σ
  | [], state => ([], state)
  | op :: ops, state =>
    let (event, after) := attempt store op state
    let (events, last) := attemptAll store ops after
    (event :: events, last)

theorem attemptAllCons {store : Store σ} {op : Op K V} {state after : KeyIndex K V × σ} {event : Event K V}
    (attempted : attempt store op state = (event, after)) (ops : List (Op K V)) :
    attemptAll store (op :: ops) state =
      (event :: (attemptAll store ops after).1, (attemptAll store ops after).2) := by
  rw [attemptAll, attempted]

theorem attemptAllOps (store : Store σ) (ops : List (Op K V)) (state : KeyIndex K V × σ) :
    (attemptAll store ops state).1.map (·.op) = ops := by
  induction ops generalizing state with
  | nil => rfl
  | cons op ops ih =>
    obtain ⟨event, attempted, same, -⟩ := attemptPerforms store op state
    rw [attemptAllCons attempted, List.map_cons, same, ih]

def Event.Steady (event : Event K V) : Prop :=
  event.op.isSteady ∨ event.op = .clear ∧ event.answer.toOption.isSome

theorem steadyAttempts {store : Store σ} {ops : List (Op K V)} {state last : KeyIndex K V × σ}
    {events : List (Event K V)} (ran : attemptAll store ops state = (events, last))
    (steady : ∀ op ∈ ops, op.isSteady) : ∀ event ∈ events, event.Steady := by
  intro event mem
  have all := attemptAllOps store ops state
  rw [ran] at all
  exact .inl (steady event.op (all ▸ List.mem_map_of_mem mem))

def succeeded (events : List (Event K V)) : List (Op K V × Answer K V) :=
  events.filterMap fun event => event.answer.toOption.map (event.op, ·)

omit [DecidableEq K] [DecidableEq V] [Wire K] [Wire V] in
theorem succeededError {event : Event K V} {e : StorageError} (answered : event.answer = .error e)
    (events : List (Event K V)) : succeeded (event :: events) = succeeded events := by
  simp [succeeded, answered, Except.toOption]

omit [DecidableEq K] [DecidableEq V] [Wire K] [Wire V] in
theorem succeededOk {event : Event K V} {answer : Answer K V} (answered : event.answer = .ok answer)
    (events : List (Event K V)) : succeeded (event :: events) = (event.op, answer) :: succeeded events := by
  simp [succeeded, answered, Except.toOption]

omit [DecidableEq K] [DecidableEq V] [Wire K] [Wire V] in
theorem memSucceeded {events : List (Event K V)} {p : Op K V × Answer K V} (mem : p ∈ succeeded events) :
    ∃ event ∈ events, event.op = p.1 := by
  obtain ⟨event, there, same⟩ := List.mem_filterMap.1 mem
  obtain ⟨answer, -, rfl⟩ := Option.map_eq_some_iff.1 same
  exact ⟨event, there, rfl⟩

end SymbolCatalog.KeyIndex
