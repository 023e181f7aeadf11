import SymbolCatalog.Proofs.NameIndex.Backed

/-! The cache of trees cannot be told from the answers: two indexes that differ in their caches alone
answer any request alike, and differ in their caches alone afterwards. -/
namespace SymbolCatalog.NameIndex
open ExceptT
variable {σ α β τ : Type} {view : σ → Entries}

inductive Request where
  | indexFile (file : FileId) (t : Tree)
  | removeFile (file : FileId)
  | find (name : String)
  | tree (file : FileId)
  | resolve (reference : Reference)
  | flush
  | clear
  | reopen (version : UInt32)

inductive Reply where
  | done
  | removed (had : Bool)
  | found (references : List Reference)
  | tree (t? : Option Tree)
  | resolved (d? : Option Resolved)

def Request.Plain : Request → Prop
  | .indexFile _ t => NameIndex.Plain t
  | _ => True

def serve (store : Store σ) (capacity : Nat) : Request → Call σ Reply
  | .indexFile file t => do
    indexFile store file t
    pure .done
  | .removeFile file => .removed <$> removeFile store file
  | .find name => .found <$> find store name
  | .tree file => .tree <$> tree store file
  | .resolve reference => .resolved <$> resolve store reference
  | .flush => do
    flush store
    pure .done
  | .clear => do
    clear store
    pure .done
  | .reopen version => do
    let index ← onStore (openOn store version capacity)
    change fun _ => index
    pure .done

def serveAll (store : Store σ) (capacity : Nat) : List Request → NameIndex × σ → List (Except Fault Reply)
  | [], _ => []
  | request :: rest, state =>
    let (reply, state) := (serve store capacity request).run state
    reply :: serveAll store capacity rest state

inductive Serves (store : Store σ) : NameIndex × σ → List Request → List (Except Fault Reply) → Prop
  | done (state) : Serves store state [] []
  | next {index : NameIndex} {s trees capacity request reply mid requests replies} (sheds : index.trees.Sheds trees)
      (served : serve store capacity request ({ index with trees }, s) = (reply, mid))
      (rest : Serves store mid requests replies) : Serves store (index, s) (request :: requests) (reply :: replies)

theorem servesAll (store : Store σ) (capacity : Nat) (requests : List Request) (state : NameIndex × σ) :
    Serves store state requests (serveAll store capacity requests state) := by
  induction requests generalizing state with
  | nil => exact .done state
  | cons request rest ih => exact .next (fun _ _ found => found) rfl (ih _)

def replies (store : Store σ) (version : UInt32) (capacity : Nat) (requests : List Request) (s : σ) :
    Except StorageError (List (Except Fault Reply)) :=
  match (openOn store version capacity).run s with
  | (.error e, _) => .error e
  | (.ok index, s) => .ok (serveAll store capacity requests (index, s))

structure Alike (view : σ → Entries) (one other : NameIndex × σ) : Prop where
  same : (one.1.names, view one.2) = (other.1.names, view other.2)
  sound : Sound view one
  sound' : Sound view other

theorem Alike.shed {index index' : NameIndex} {s s' : σ} (alike : Alike view (index, s) (index', s'))
    {trees trees' : LruCache FileId Tree} (sheds : index.trees.Sheds trees) (sheds' : index'.trees.Sheds trees') :
    Alike view ({ index with trees }, s) ({ index' with trees := trees' }, s') :=
  ⟨alike.same, Backed.shed alike.sound sheds, Backed.shed alike.sound' sheds'⟩

def Match (view : σ → Entries) (one other : Except Fault α × NameIndex × σ) : Prop :=
  one.1 = other.1 ∧ Alike view one.2 other.2

theorem matchSees {kept : NameIndex × σ → τ} {call : Call σ α} (sees : Sees view kept call)
    (keeps : ∀ state, Sound view state → call.Ends state (fun _ after => Sound view after) (Sound view))
    {one other : NameIndex × σ} (alike : Alike view one other) : Match view (call one) (call other) := by
  obtain ⟨answer, after, -⟩ := sees one other alike.same
  exact ⟨answer, after, (keeps one alike.sound).always, (keeps other alike.sound').always⟩

theorem Match.bind {one other : NameIndex × σ} {call : Call σ α} {next : α → Call σ β}
    (first : Match view (call one) (call other))
    (each : ∀ a one other, Alike view one other → Match view (next a one) (next a other)) :
    Match view ((call >>= next) one) ((call >>= next) other) := by
  obtain ⟨answer, alike⟩ := first
  rw [runBind, runBind]
  rcases hc : call one with ⟨e | a, t⟩ <;> rcases hc' : call other with ⟨e' | a', t'⟩ <;>
    rw [hc, hc'] at answer alike <;> cases answer
  · exact ⟨rfl, alike⟩
  · exact each _ t t' alike

theorem Match.map {one other : NameIndex × σ} {call : Call σ α}
    (h : Match view (call one) (call other)) (f : α → β) : Match view ((f <$> call) one) ((f <$> call) other) := by
  rw [map_eq_pure_bind]
  exact h.bind fun _ _ _ alike => ⟨rfl, alike⟩

section
variable {store : Store σ} (follows : store.Follows view False)
include follows

theorem matchTree {one other : NameIndex × σ} (alike : Alike view one other) (file : FileId) :
    Match view (tree store file one) (tree store file other) := by
  obtain ⟨names, entries⟩ := Prod.mk.inj alike.same
  obtain ⟨index, s, run, names', same, sound⟩ := treeLooksUp follows alike.sound file
  obtain ⟨index', s', run', names'', same', sound'⟩ := treeLooksUp follows alike.sound' file
  rw [run, run', entries]
  exact ⟨rfl, Prod.ext (names'.trans (names.trans names''.symm)) (same.trans (entries.trans same'.symm)), sound, sound'⟩

theorem matchResolve {one other : NameIndex × σ} (alike : Alike view one other) (reference : Reference) :
    Match view (resolve store reference one) (resolve store reference other) := by
  refine (matchTree follows alike reference.file).bind fun t? one other alike => ?_
  cases t? <;> exact ⟨rfl, alike⟩

theorem matchOpen {one other : σ} (entries : view one = view other) (version : UInt32) (capacity capacity' : Nat) :
    ∃ index s index' s', openOn store version capacity one = (.ok index, s) ∧
      openOn store version capacity' other = (.ok index', s') ∧ Alike view (index, s) (index', s') := by
  obtain ⟨index, s, run, ⟨table, opened⟩, after⟩ := (endsOpenNames follows version one capacity).succeeds
  obtain ⟨index', s', run', ⟨table', opened'⟩, after'⟩ := (endsOpenNames follows version other capacity').succeeds
  subst opened opened'
  refine ⟨_, s, _, s', run, run', ?_, .empty capacity, .empty capacity'⟩
  rw [after, after', entries]

theorem matchServe {one other : NameIndex × σ} (alike : Alike view one other) {request : Request}
    (plain : request.Plain) (capacity capacity' : Nat) :
    Match view (serve store capacity request one) (serve store capacity' request other) := by
  cases request with
  | indexFile file t =>
    refine (matchSees (seesIndexFile follows file t) (fun state sound => ?_) alike).bind fun _ _ _ alike => ⟨rfl, alike⟩
    exact sound.indexFile follows file plain
  | removeFile file =>
    refine matchSees (withinMap (seesRemoveFile follows file)) (fun state sound => ?_) alike
    exact endsMap (sound.removeFile follows file)
  | find name =>
    refine matchSees (withinMap (seesFind follows name)) (fun state sound => ?_) alike
    exact endsMap (sound.stays (seesFind follows name) fun _ _ same => congrArg places same)
  | tree file => exact (matchTree follows alike file).map Reply.tree
  | resolve reference => exact (matchResolve follows alike reference).map Reply.resolved
  | flush =>
    refine (matchSees (seesFlush follows) (fun state sound => ?_) alike).bind fun _ _ _ alike => ⟨rfl, alike⟩
    exact sound.stays (seesFlush follows) fun _ _ => placesApart
  | clear =>
    refine (matchSees (seesClear follows) (fun state sound => ?_) alike).bind fun _ _ _ alike => ⟨rfl, alike⟩
    exact Sound.clear follows state.1 state.2
  | reopen version =>
    obtain ⟨index, s, index', s', run, run', opened⟩ :=
      matchOpen follows (Prod.mk.inj alike.same).2 version capacity capacity'
    rw [serve, serve, runBind, runBind, runStore, runStore, run, run']
    exact ⟨rfl, opened⟩

/-- A cache of any policy has at any time a part of what a cache has that is large enough. So before each
request both may forget what they like, and a cache that is opened anew may be of any size. -/
theorem servesAgree {requests : List Request} (plain : ∀ request ∈ requests, request.Plain)
    {one other : NameIndex × σ} (alike : Alike view one other) {replies replies' : List (Except Fault Reply)}
    (run : Serves store one requests replies) (run' : Serves store other requests replies') : replies = replies' := by
  induction run generalizing other replies' with
  | done =>
    cases run'
    rfl
  | next sheds served _ ih =>
    obtain - | ⟨sheds', served', rest'⟩ := run'
    obtain ⟨reply, alike⟩ := matchServe follows (alike.shed sheds sheds') (plain _ (.head _)) _ _
    rw [served, served'] at reply alike
    exact congrArg₂ List.cons reply (ih (fun request mem => plain request (.tail _ mem)) alike rest')

/-- The replies of an index of names to any requests, faults among them, are the same for all sizes of its
cache, whatever the store holds at the start, as long as the store does not fail and each tree that is
indexed has its ids in depth-first order and only variadic types that are arrays. -/
theorem cacheTransparent (version : UInt32) (capacity capacity' : Nat) (requests : List Request)
    (plain : ∀ request ∈ requests, request.Plain) (s : σ) : ∃ answers,
      replies store version capacity requests s = .ok answers ∧
      replies store version capacity' requests s = .ok answers := by
  obtain ⟨index, t, index', t', run, run', alike⟩ :=
    matchOpen follows (rfl : view s = view s) version capacity capacity'
  refine ⟨serveAll store capacity requests (index, t), ?_, ?_⟩
  · unfold replies
    rw [ExceptT.run, run]
  · unfold replies
    rw [ExceptT.run, run', servesAgree follows plain alike (servesAll ..) (servesAll store capacity' requests _)]

end

def orderedTree : Tree := (Tree.ofFile none).grown
  [(⟨0⟩, .classDecl "A" 0), (⟨1⟩, .field "x" ⟨"int", 1, true, []⟩ 0 none), (⟨0⟩, .classDecl "B" 0)]

theorem orderedPlain : Plain orderedTree where
  storable := Tree.storableAll (by decide +kernel)
  order := by decide +kernel
  arrays := Tree.arraysAll (by decide +kernel)

def sampleRequests : List Request :=
  [.indexFile ⟨1⟩ orderedTree, .indexFile ⟨2⟩ orderedTree, .tree ⟨1⟩, .resolve ⟨⟨1⟩, ⟨2⟩⟩, .flush, .removeFile ⟨2⟩,
    .find "x", .reopen 1, .find "x", .tree ⟨2⟩, .reopen 2, .tree ⟨1⟩, .clear]

theorem sampleCacheTransparent :
    (memoryStore.Follows id False ∧ ∀ request ∈ sampleRequests, request.Plain) ∧
    ∃ answers, replies memoryStore 1 0 sampleRequests .empty = .ok answers ∧
      replies memoryStore 1 8 sampleRequests .empty = .ok answers := by
  have plain : ∀ request ∈ sampleRequests, request.Plain := by
    simp [sampleRequests, Request.Plain, orderedPlain]
  exact ⟨⟨memoryFollows, plain⟩, cacheTransparent memoryFollows 1 0 8 sampleRequests plain .empty⟩

end SymbolCatalog.NameIndex
