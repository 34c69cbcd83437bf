import UniDb.Lib.Lists
import UniDb.Side.System
import UniDb.Sql.Eval

/-!
# The adjacency cache

`edges_from` and a Cypher match with `from_id = <literal>` read the edges of one node, a hub. The
cache maps hubs to lists of edges; a hit is answered from the list without a look at the reader's
snapshot. A miss reads index and heap under the snapshot and afterwards stores what it found, unless
it found an edge that the transaction created itself. `create_edge` and `delete_edge` drop the hub's
list before they write.

One call is several steps here, as other calls run in between: a write first drops the list
(`startWrite`) and then changes heap and index (`finishWrite`), under the lock that serializes
writes; a miss first reads (`readCold`) and then stores (`fill`).
-/

namespace UniDb.Side

/-! ## Cached edges -/

structure Found where
  rowId : Nat
  fromId : Int
  edge : Edge
deriving Repr, DecidableEq

def found (i : Nat) (row : Row Edge) : Found := ⟨i, row.key, row.data⟩

structure EdgeRef where
  toId : Int
  edgeRowId : Nat
  edgeType : String
  propsInline : Option String
deriving Repr, DecidableEq

def propsInlineLimit : Nat := 256

def edgeRef (f : Found) : EdgeRef where
  toId := f.edge.toId
  edgeRowId := f.rowId
  edgeType := f.edge.edgeType
  propsInline := if f.edge.props.utf8ByteSize ≤ propsInlineLimit then some f.edge.props else none

/-- The edge of a cached reference. Props that were not inlined are fetched from the heap. -/
def rebuild (t : Table Edge) (fromId : Int) (ref : EdgeRef) : Found where
  rowId := ref.edgeRowId
  fromId := fromId
  edge :=
    { toId := ref.toId
      edgeType := ref.edgeType
      props := match ref.propsInline with
        | some props => props
        | none => (t.rows[ref.edgeRowId]?.map fun row => row.data.props).getD "" }

/-- The time stamps that choose the victim of an eviction are left out: any entry may be evicted. -/
structure AdjacencyCache where
  entries : List (Int × List EdgeRef)
  maxHubs : Nat

namespace AdjacencyCache

variable (c : AdjacencyCache)

def get (fromId : Int) : Option (List EdgeRef) :=
  if c.maxHubs = 0 then none else c.entries.lookup fromId

def evict (victim : Int) : AdjacencyCache :=
  { c with entries := c.entries.filter fun e => e.1 ≠ victim }

def insert (victim fromId : Int) (edges : List EdgeRef) : AdjacencyCache :=
  if c.maxHubs = 0 then c
  else
    let c := if c.maxHubs ≤ c.entries.length then c.evict victim else c
    { c with entries := (fromId, edges) :: c.entries.filter fun e => e.1 ≠ fromId }

def invalidate (fromId : Int) : AdjacencyCache :=
  if c.maxHubs = 0 then c else c.evict fromId

@[simp] lemma invalidate_maxHubs (fromId : Int) : (c.invalidate fromId).maxHubs = c.maxHubs := by
  unfold invalidate
  split <;> rfl

@[simp] lemma insert_maxHubs (victim fromId : Int) (edges : List EdgeRef) :
    (c.insert victim fromId edges).maxHubs = c.maxHubs := by
  unfold insert
  split
  · rfl
  · dsimp only
    split <;> rfl

variable {c} {victim fromId q : Int} {edges refs : List EdgeRef}

lemma lookup_filter (h : (c.entries.filter fun e => e.1 ≠ victim).lookup q = some refs) :
    q ≠ victim ∧ c.entries.lookup q = some refs := by
  have hne : q ≠ victim := by
    rintro rfl
    have hnone : (c.entries.filter fun e => e.1 ≠ q).lookup q = none := by
      simp [ne_comm]
    rw [hnone] at h
    cases h
  exact ⟨hne, (lookup_filter_ne hne _).symm.trans h⟩

lemma get_invalidate (h : (c.invalidate fromId).get q = some refs) :
    q ≠ fromId ∧ c.get q = some refs := by
  by_cases hzero : c.maxHubs = 0
  · simp [get, hzero] at h
  · simp only [get, invalidate, evict, hzero, if_false] at h ⊢
    exact lookup_filter h

lemma get_insert (h : (c.insert victim fromId edges).get q = some refs) :
    q = fromId ∧ refs = edges ∨ c.get q = some refs := by
  by_cases hzero : c.maxHubs = 0
  · simp [get, hzero] at h
  · simp only [get, insert_maxHubs, hzero] at h ⊢
    simp only [insert, hzero, if_false] at h
    by_cases hq : q = fromId
    · subst hq
      rw [List.lookup_cons_self] at h
      exact .inl ⟨rfl, (Option.some.inj h).symm⟩
    · right
      rw [List.lookup_cons, beq_false_of_ne hq] at h
      have h := (lookup_filter h).2
      split at h
      · exact (lookup_filter h).2
      · exact h

end AdjacencyCache

/-! ## Reads -/

def edgeColumns : List ColumnDef :=
  [{ name := "from_id", ty := .int64 }, { name := "to_id", ty := .int64 },
    { name := "edge_type", ty := .text }, { name := "props", ty := .json }]

def Found.literals (f : Found) : List Literal :=
  [.int f.fromId, .int f.edge.toId, .text f.edge.edgeType, .json f.edge.props]

/-- `RETURN` is left out: the projection is the same on every path. -/
structure CypherQuery where
  edgeType : Option String
  predicate : Option Expr

def findFromIdEq : Expr → Option Int
  | .binOp .eq (.column c) (.literal (.int n)) => if c = "from_id" then some n else none
  | .binOp .eq (.literal (.int n)) (.column c) => if c = "from_id" then some n else none
  | .and lhs rhs => (findFromIdEq lhs).or (findFromIdEq rhs)
  | _ => none

def CypherQuery.fullPredicate (query : CypherQuery) : Option Expr :=
  let typeFilter := query.edgeType.map fun t => .binOp .eq (.column "edge_type")
    (.literal (.text t))
  match query.predicate, typeFilter with
  | some p, some t => some (.and p t)
  | some p, none => some p
  | none, some t => some t
  | none, none => none

inductive ReadRequest where
  | edgesFrom (fromId : Int)
  | cypher (query : CypherQuery)

/-- The hub that a read goes to; without one, all edges are scanned. -/
def ReadRequest.hub : ReadRequest → Option Int
  | .edgesFrom fromId => some fromId
  | .cypher query => query.fullPredicate.bind findFromIdEq

/-- Keep the edges that pass the test, stop at the first error. -/
def selectEdges (test : Found → Except DbError Bool) : List Found → Except DbError (List Found)
  | [] => .ok []
  | f :: rest => do
    let keep ← test f
    let kept ← selectEdges test rest
    pure (if keep then f :: kept else kept)

def ReadRequest.test (rt : Runtime) : ReadRequest → Found → Except DbError Bool
  | .edgesFrom fromId, f => .ok (f.fromId = fromId)
  | .cypher query, f => predicateMatches rt query.fullPredicate edgeColumns f.literals

/-- What the call returns when it works on the edges `fs`. -/
def ReadRequest.answer (rt : Runtime) (fs : List Found) : ReadRequest → Except DbError (List Found)
  | .edgesFrom _ => .ok fs
  | .cypher query => selectEdges (ReadRequest.test rt (.cypher query)) fs

/-! ## The system -/

inductive EdgeWrite where
  | create (fromId : Int) (edge : Edge)
  | delete (i : Nat) (fromId : Int)

def EdgeWrite.hub : EdgeWrite → Int
  | .create fromId _ => fromId
  | .delete _ fromId => fromId

def EdgeWrite.apply (t : Tracked Edge) (x : Nat) : EdgeWrite → Tracked Edge
  | .create fromId edge => t.insert x fromId edge
  | .delete i fromId => if t.deletable i then t.delete x fromId i else t

structure GraphState where
  txns : TxnInner
  edges : Tracked Edge
  cache : AdjacencyCache
  /-- The write that holds the lock. -/
  mutating : Option (Nat × EdgeWrite)
  /-- Lists that were read and are not yet stored. -/
  fills : List (Int × List EdgeRef)

namespace GraphState

def empty (maxHubs : Nat) : GraphState where
  txns := ⟨1, fun _ => none⟩
  edges := .empty
  cache := ⟨[], maxHubs⟩
  mutating := none
  fills := []

variable (s : GraphState) (r : Reader) (fromId : Int) (rt : Runtime)

/-- The rows that the index names for the hub and the reader sees. -/
def resolved : List (Nat × Row Edge) :=
  s.edges.resolve r (s.edges.searchEq fromId)

def hasSelfWrite : Bool :=
  (s.resolved r fromId).any fun e => e.2.xmin = r.xid

def visible : List Found := (s.edges.scan r).map fun e => found e.1 e.2

def coldAnswer (r : Reader) (req : ReadRequest) : Except DbError (List Found) :=
  match req.hub with
  | none => req.answer rt (s.visible r)
  | some fromId => req.answer rt ((s.resolved r fromId).map fun e => found e.1 e.2)

def hitAnswer (req : ReadRequest) (fromId : Int) (refs : List EdgeRef) :
    Except DbError (List Found) :=
  req.answer rt (refs.map (rebuild s.edges.toTable fromId))

end GraphState

inductive GraphAction where
  | begin (isolation : IsolationLevel)
  | startWrite (x : Nat) (w : EdgeWrite)
  | finishWrite
  | readHit (x : Nat) (req : ReadRequest)
  | readCold (x : Nat) (req : ReadRequest)
  | fill (k : Nat) (victim : Int)
  | commit (x : Nat)
  | abort (x : Nat)

namespace GraphState

variable (s : GraphState)

def betweenWrites (x : Nat) : Bool := s.mutating.all fun m => m.1 ≠ x

def step : GraphAction → Option GraphState
  | .begin isolation => some { s with txns := s.txns.begin isolation }
  | .startWrite x w =>
    if s.mutating.isNone then
      (readerIn s.txns x).map fun _ =>
        { s with cache := s.cache.invalidate w.hub, mutating := some (x, w) }
    else none
  | .finishWrite => s.mutating.map fun m =>
    { s with edges := m.2.apply s.edges m.1, mutating := none }
  | .readHit x req => (readerIn s.txns x).bind fun _ =>
    (req.hub.bind s.cache.get).map fun _ => s
  | .readCold x req => (readerIn s.txns x).map fun r =>
    match req.hub with
    | none => s
    | some fromId =>
      if s.hasSelfWrite r fromId then s
      else
        { s with fills := s.fills ++
            [(fromId, (s.resolved r fromId).map fun e => edgeRef (found e.1 e.2))] }
  | .fill k victim => s.fills[k]?.map fun f =>
    { s with cache := s.cache.insert victim f.1 f.2, fills := s.fills.eraseIdx k }
  | .commit x =>
    if s.betweenWrites x then
      (readerIn s.txns x).map fun _ => { s with txns := s.txns.remove x }
    else none
  | .abort x =>
    if s.betweenWrites x then
      (readerIn s.txns x).map fun _ =>
        { s with txns := s.txns.remove x, edges := s.edges.undo fun y => y == x }
    else none

end GraphState

/-! ## What a read should return -/

/-- The same edges in any order, or an error in both cases. -/
def Agrees : Except DbError (List Found) → Except DbError (List Found) → Prop
  | .ok fs, .ok gs => fs.Perm gs
  | .error _, .error _ => True
  | _, _ => False

/-- `result` is what the call returns without a cache, and if it is no error, it is the edges that
the reader sees and that pass the test of the call. -/
structure GraphState.RightAnswer (rt : Runtime) (s : GraphState) (r : Reader) (req : ReadRequest)
    (result : Except DbError (List Found)) : Prop where
  cold : Agrees result (s.coldAnswer rt r req)
  visible : ∀ fs, result = .ok fs →
    fs.Perm ((s.visible r).filter fun f => (req.test rt f).toOption = some true)

/-- The reads among the steps give right answers. -/
def GraphState.Right (rt : Runtime) (s : GraphState) : GraphAction → Prop
  | .readHit x req => ∀ r fromId refs, readerIn s.txns x = some r → req.hub = some fromId →
    s.cache.get fromId = some refs → s.RightAnswer rt r req (s.hitAnswer rt req fromId refs)
  | .readCold x req => ∀ r, readerIn s.txns x = some r →
    s.RightAnswer rt r req (s.coldAnswer rt r req)
  | _ => True

end UniDb.Side
