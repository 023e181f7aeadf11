import SymbolCatalog.Proofs.KeyIndex.Flush
import SymbolCatalog.Proofs.KeyIndex.Visiting

/-! An index over a store in memory answers as a ledger does that keeps no index at all: for each
file the entries of its last update, and a copy of this that was committed by the last flush. -/
namespace SymbolCatalog.KeyIndex
open ExceptT StoreCall
variable {K V σ : Type}

inductive Op (K V : Type) where
  | reopen (version : UInt32)
  | update (file : FileId) (entries : List (K × V))
  | removeFile (file : FileId)
  | get (key : K)
  | visit (scope : Scope) (accepts : K → Bool) (goesOn : List K → Bool)
  | flush
  | clear

inductive Answer (K V : Type) where
  | done
  | removed (had : Bool)
  | found (c : Occurrences V)
  | visited (completed : Bool) (keys : List K)

def Op.isQuery : Op K V → Bool
  | .get _ | .visit .. => true
  | _ => false

def note (goesOn : List K → Bool) (seen : List K) (key : K) : Bool × List K :=
  (goesOn (seen ++ [key]), seen ++ [key])

structure Ledger (K V : Type) where
  version : UInt32
  files : Contents K V
  committed : Contents K V

namespace Ledger

def opened (version : UInt32) : Ledger K V := ⟨version, .none, .none⟩

def step (l : Ledger K V) : Op K V → Ledger K V
  | .reopen version => if version = l.version then { l with files := l.committed } else opened version
  | .update file entries => { l with files := l.files.put file entries }
  | .removeFile file => { l with files := l.files.put file [] }
  | .get _ | .visit .. => l
  | .flush => { l with committed := l.files }
  | .clear => opened l.version

def run (l : Ledger K V) (ops : List (Op K V)) : Ledger K V := ops.foldl step l

def Answers (l : Ledger K V) : Op K V → Answer K V → Prop
  | .get key, .found c =>
    c.pairs.Nodup ∧ ∀ file value, (file, value) ∈ c.pairs ↔ (key, value) ∈ l.files file
  | .removeFile file, .removed had => had = true ↔ l.files file ≠ []
  | .visit scope accepts goesOn, .visited completed keys =>
    ∃ all, Shown l.files scope accepts all ∧ (completed, keys) = visitAll (note goesOn) [] all
  | .reopen _, .done | .update .., .done | .flush, .done | .clear, .done => True
  | _, _ => False

def AnswersAll (l : Ledger K V) : List (Op K V) → List (Answer K V) → Prop
  | [], [] => True
  | op :: ops, answer :: answers => l.Answers op answer ∧ (l.step op).AnswersAll ops answers
  | _, _ => False

theorem runQueries (l : Ledger K V) (ops : List (Op K V)) :
    l.run (ops.filter fun op => !op.isQuery) = l.run ops := by
  induction ops generalizing l with
  | nil => rfl
  | cons op ops ih => cases op <;> exact ih _

variable [Wire K] [Wire V]

def Admits (l : Ledger K V) : Op K V → Prop
  | .update _ entries => ∀ p ∈ entries, Wire.ReadsBack p.1 ∧ Wire.ReadsBack p.2
  | .get key => Wire.ReadsBack key
  | .flush => l.files.Fits
  | _ => True

def AdmitsAll (l : Ledger K V) : List (Op K V) → Prop
  | [] => True
  | op :: ops => l.Admits op ∧ (l.step op).AdmitsAll ops

/- A run that draws on fewer than 2^64 different entries never writes a length that cannot be told. -/
theorem admitsAmong {given : List (K × V)} (short : given.length < 2 ^ 64)
    (coded : ∀ p ∈ given, Wire.ReadsBack p.1 ∧ Wire.ReadsBack p.2) {ops : List (Op K V)}
    (drawn : ∀ file entries, .update file entries ∈ ops → ∀ p ∈ entries, p ∈ given)
    (asked : ∀ key, .get key ∈ ops → Wire.ReadsBack key) {l : Ledger K V}
    (files : l.files.Among given) (committed : l.committed.Among given) : l.AdmitsAll ops := by
  induction ops generalizing l with
  | nil => trivial
  | cons op ops ih =>
    have ih := @ih (fun file entries mem => drawn file entries (.tail _ mem))
      fun key mem => asked key (.tail _ mem)
    cases op with
    | update file entries =>
      have new := drawn file entries (.head _)
      exact ⟨fun p hp => coded p (new p hp), ih (files.put file new) committed⟩
    | removeFile file => exact ⟨trivial, ih (files.put file (by simp)) committed⟩
    | get key => exact ⟨asked key (.head _), ih files committed⟩
    | visit => exact ⟨trivial, ih files committed⟩
    | flush => exact ⟨files.fits short, ih files files⟩
    | clear => exact ⟨trivial, ih (Contents.amongNone _) (Contents.amongNone _)⟩
    | reopen version =>
      refine ⟨trivial, ?_⟩
      rw [step]
      split
      · exact ih committed committed
      · exact ih (Contents.amongNone _) (Contents.amongNone _)

end Ledger

def perform [DecidableEq K] [DecidableEq V] [Wire K] [Wire V] (store : Store σ) :
    Op K V → Call K V σ (Answer K V)
  | .reopen version => do
    let index ← (openOn store version).second
    change fun _ => index
    pure .done
  | .update file entries => do
    update store file entries
    pure .done
  | .removeFile file => .removed <$> removeFile store file
  | .get key => .found <$> get store key
  | .visit scope accepts goesOn => do
    let visited ← visitKeys (V := V) store scope accepts (note goesOn) []
    pure (.visited visited.completed visited.result)
  | .flush => do
    flush store
    pure .done
  | .clear => do
    clear store
    pure .done

def lasting {α : Type} (index : KeyIndex K V) (call : Call K V σ α) : StoreCall σ α := fun s =>
  let (answer, _, s) := call (index, s)
  (answer, s)

def session [DecidableEq K] [DecidableEq V] [Wire K] [Wire V] (store : Store σ) (version : UInt32)
    (ops : List (Op K V)) : StoreCall σ (List (Answer K V)) := do
  let index ← openOn store version
  lasting index (ops.mapM (perform store))

theorem endsLasting {α : Type} {index : KeyIndex K V} {call : Call K V σ α} {s : σ}
    {done : α → σ → Prop} {failed : σ → Prop}
    (h : call.Ends (index, s) (fun a after => done a after.2) fun after => failed after.2) :
    (lasting index call).Ends s done failed := by
  have run : lasting index call s = ((call (index, s)).1, (call (index, s)).2.2) := rfl
  unfold Ends at h ⊢
  rw [run]
  rcases hc : call (index, s) with ⟨e | a, after⟩ <;> rw [hc] at h <;> exact h

variable [DecidableEq K] [DecidableEq V] [Wire K] [Wire V]

structure Represents (view : σ → Entries) (state : KeyIndex K V × σ) (l : Ledger K V) : Prop where
  holds : Holds state.1 (view state.2) l.files
  committed : Stored l.version (view state.2) l.committed
  version : state.1.version = l.version

theorem Reads.represents {view : σ → Entries} {before after : KeyIndex K V × σ} {l : Ledger K V}
    (r : Reads view before after l.files.account) (h : Represents view before l) :
    Represents view after l :=
  ⟨r.holds h.holds, r.store.symm ▸ h.committed, r.version.trans h.version⟩

theorem endsReopen {store : Store σ} {view : σ → Entries} (follows : store.Follows view False)
    {index : KeyIndex K V} {s : σ} {l : Ledger K V} (h : Represents view (index, s) l)
    (version : UInt32) : (perform store (.reopen version)).Ends (index, s)
      (fun answer after => answer = .done ∧ Represents view after (l.step (.reopen version)))
      fun _ => False := by
  refine endsBind (endsSecond ((endsOpen follows version s).weaken ?_ fun _ h => h.1))
  intro _ s' given
  obtain ⟨rfl, told⟩ := given
  refine endsBind (endsChange (endsPure ⟨rfl, ?_⟩))
  have stamped : (view s).get? versionKey = some (stamp l.version) := h.committed.stamped
  rw [Ledger.step]
  by_cases same : version = l.version
  · subst same
    rw [if_pos stamped] at told
    rw [if_pos rfl]
    exact ⟨told.symm ▸ h.committed, told.symm ▸ h.committed, rfl⟩
  · have other : (view s).get? versionKey ≠ some (stamp version) := fun found =>
      same (wordBytesInjective (Option.some.inj (found.symm.trans stamped)))
    rw [if_neg other] at told
    rw [if_neg same]
    have fresh := freshStored (K := K) (V := V) version
    exact ⟨told.symm ▸ fresh, told.symm ▸ fresh, rfl⟩

theorem endsPerform {store : Store σ} {view : σ → Entries} (follows : store.Follows view False)
    {state : KeyIndex K V × σ} {l : Ledger K V} (h : Represents view state l) {op : Op K V}
    (admitted : l.Admits op) : (perform store op).Ends state
      (fun answer after => l.Answers op answer ∧ Represents view after (l.step op))
      fun _ => False := by
  obtain ⟨index, s⟩ := state
  cases op with
  | reopen version =>
    refine (endsReopen follows h version).weaken ?_ fun _ => id
    intro _ after given
    obtain ⟨rfl, rep⟩ := given
    exact ⟨trivial, rep⟩
  | update file entries =>
    refine endsBind ((h.holds.tells.endsUpdate follows file admitted).weaken ?_ fun _ h => h.1)
    intro _ after r
    exact endsPure ⟨trivial, r.holds h.holds, r.store.symm ▸ h.committed, r.version.trans h.version⟩
  | removeFile file =>
    refine endsMap ((endsRemoveFile follows h.holds file).weaken ?_ fun _ h => h.1)
    intro had after ⟨r, told⟩
    subst told
    refine ⟨?_, r.holds h.holds, r.store.symm ▸ h.committed, r.version.trans h.version⟩
    simp [Ledger.Answers]
  | get key =>
    refine endsMap ((h.holds.tells.endsGet follows admitted).weaken ?_ fun _ h => h.1)
    intro c after ⟨shows, _, r⟩
    exact ⟨⟨c.pairsNodup, shows⟩, r.represents h⟩
  | visit scope accepts goesOn =>
    refine endsBind ((h.holds.tells.endsVisit follows scope accepts (note goesOn) []).weaken ?_
      fun _ h => h.1)
    intro visited pair given
    obtain ⟨_, s'⟩ := pair
    obtain ⟨rfl, same, shown⟩ := given
    exact endsPure ⟨shown, same.symm ▸ h.holds, same.symm ▸ h.committed, h.version⟩
  | flush =>
    refine endsBind ((endsFlush follows h.holds admitted).weaken ?_ fun _ h => h.1)
    intro _ ⟨index', s'⟩ ⟨writes, stored⟩
    rw [h.version] at stored
    exact endsPure ⟨trivial, writes.holds h.holds, stored, writes.version.trans h.version⟩
  | clear =>
    refine endsBind ((endsClear follows index s).weaken ?_ fun _ h => h.1)
    intro _ pair given
    obtain ⟨_, s'⟩ := pair
    obtain ⟨rfl, same⟩ := given
    rw [h.version] at same
    have fresh := freshStored (K := K) (V := V) l.version
    refine endsPure ⟨trivial, ?_, same.symm ▸ fresh, h.version⟩
    rw [h.version]
    exact same.symm ▸ fresh

theorem endsRun {store : Store σ} {view : σ → Entries} (follows : store.Follows view False)
    {ops : List (Op K V)} {state : KeyIndex K V × σ} {l : Ledger K V}
    (h : Represents view state l) (admitted : l.AdmitsAll ops) :
    (ops.mapM (perform store)).Ends state
      (fun answers after => l.AnswersAll ops answers ∧ Represents view after (l.run ops))
      fun _ => False := by
  induction ops generalizing state l with
  | nil => exact endsPure ⟨trivial, h⟩
  | cons op ops ih =>
    rw [List.mapM_cons]
    refine endsBind ((endsPerform follows h admitted.1).weaken ?_ fun _ => id)
    intro answer state' given
    obtain ⟨right, rep⟩ := given
    refine endsBind ((ih rep admitted.2).weaken ?_ fun _ => id)
    intro answers state'' given
    obtain ⟨rights, rep'⟩ := given
    exact endsPure ⟨⟨right, rights⟩, rep'⟩

theorem endsFresh {store : Store σ} {view : σ → Entries} (follows : store.Follows view False) {version : UInt32}
    {s : σ} (other : (view s).get? versionKey ≠ some (stamp version)) :
    (openOn store version : StoreCall σ (KeyIndex K V)).Ends s
      (fun index after => Represents view (index, after) (Ledger.opened version)) fun _ => False := by
  refine (endsOpen follows version s).weaken ?_ fun _ no => no.1
  intro index after ⟨same, told⟩
  rw [if_neg other] at told
  have fresh := freshStored (K := K) (V := V) version
  exact ⟨same ▸ told.symm ▸ fresh, told.symm ▸ fresh, same ▸ rfl⟩

theorem endsSession (version : UInt32) {ops : List (Op K V)}
    (admitted : (Ledger.opened version).AdmitsAll ops) :
    (session memoryStore version ops).Ends .empty
      (fun answers entries => (Ledger.opened version).AnswersAll ops answers ∧
        Stored ((Ledger.opened version).run ops).version entries
          ((Ledger.opened version).run ops).committed)
      fun _ => False := by
  have absent : Entries.empty.get? versionKey ≠ some (stamp version) := nofun
  refine endsBind ((endsFresh memoryFollows absent).weaken ?_ fun _ => id)
  intro index entries fresh
  refine endsLasting ((endsRun memoryFollows fresh admitted).weaken ?_ fun _ => id)
  intro answers after ⟨right, rep⟩
  exact ⟨right, rep.committed⟩

/-- Every run of an index on a store in memory gives the answers of the ledger, and leaves in the
store what the ledger has committed. The queries of the run change neither. -/
theorem indexFollowsLedger (version : UInt32) (ops : List (Op K V))
    (admitted : (Ledger.opened version).AdmitsAll ops) :
    ∃ answers entries, session memoryStore version ops .empty = (.ok answers, entries) ∧
      (Ledger.opened version).AnswersAll ops answers ∧
      let last := (Ledger.opened version).run ops
      Stored last.version entries last.committed ∧
        (Ledger.opened version).run (ops.filter fun op => !op.isQuery) = last := by
  obtain ⟨answers, entries, run, right, stored⟩ := (endsSession version admitted).succeeds
  exact ⟨answers, entries, run, right, stored, Ledger.runQueries _ ops⟩

def sampleRun : List (Op UInt32 UInt32) :=
  [.update ⟨1⟩ [(7, 70), (8, 80), (7, 71)], .update ⟨2⟩ [(7, 70)], .get 7, .flush, .removeFile ⟨1⟩,
    .get 7, .reopen 1, .get 7, .update ⟨1⟩ [(9, 90)], .removeFile ⟨2⟩, .get 8, .flush, .reopen 1, .get 7,
    .reopen 2, .removeFile ⟨1⟩]

theorem sampleFollowsLedger :
    (Ledger.opened 1).AdmitsAll sampleRun ∧
    ∃ answers entries, session memoryStore 1 sampleRun .empty = (.ok answers, entries) ∧
      (Ledger.opened 1).AnswersAll sampleRun answers ∧
      let last := (Ledger.opened 1).run sampleRun
      Stored last.version entries last.committed ∧
        (Ledger.opened 1).run (sampleRun.filter fun op => !op.isQuery) = last := by
  have admitted : (Ledger.opened 1).AdmitsAll sampleRun := by
    have word : ∀ n : UInt32, Wire.ReadsBack n := Wire.readsBack_word
    have drawn : ∀ file entries, .update file entries ∈ sampleRun →
        ∀ p ∈ entries, p ∈ [(7, 70), (8, 80), (7, 71), (9, 90)] := by
      simp only [sampleRun, List.mem_cons, Op.update.injEq, reduceCtorEq, false_or, or_false,
        List.not_mem_nil]
      intro file entries given
      obtain ⟨rfl, rfl⟩ | ⟨rfl, rfl⟩ | ⟨rfl, rfl⟩ := given <;> simp
    exact Ledger.admitsAmong (by decide) (fun p _ => ⟨word p.1, word p.2⟩) drawn
      (fun key _ => word key) (Contents.amongNone _) (Contents.amongNone _)
  exact ⟨admitted, indexFollowsLedger 1 sampleRun admitted⟩

end SymbolCatalog.KeyIndex
