/-
  Circular foreign keys (app/spec/fk_cycles.py). `_sccs` is Tarjan's algorithm with an explicit
  stack of iterators: one step of the model takes one element of the topmost iterator, or ends
  its node. What Python would raise is `none`; that it raises nothing and comes to an end is
  proved in `Spec.Tarjan`.
-/
import PgErdCloud.Spec.Snapshot
import PgErdCloud.Lib.Dict

namespace PgErdCloud.Spec

open Lib Lib.PyStr

/-! ## Strongly connected components -/

section
variable {α : Type} [DecidableEq α]

/-- `s.add(x)` -/
def setAdd (x : α) (xs : List α) : List α := if x ∈ xs then xs else xs ++ [x]

/-- The variables of `_sccs`. The tops of `stack` and `work` are their heads; an iterator is
    what it still yields. -/
structure Search (α : Type) where
  index : Dict α Nat
  low : Dict α Nat
  onStack : List α
  stack : List α
  result : List (List α)
  counter : Nat
  work : List (α × List α)

/-- Nothing has been seen. -/
def Search.empty : Search α := ⟨.empty, .empty, [], [], [], 0, []⟩

/-- `low[v] = min(low[v], bound)` -/
def Search.lower (s : Search α) (v : α) (bound : Nat) : Option (Search α) :=
  (s.low.get? v).map fun l => { s with low := s.low.set v (min l bound) }

/-- The nodes that are popped until `v` is, and the rest of the stack. -/
def popComponent (v : α) : List α → Option (List α × List α)
  | [] => none
  | w :: stack =>
      if w = v then some ([w], stack)
      else (popComponent v stack).map fun popped => (w :: popped.1, popped.2)

/-- `low[v] == index[v]`: the component of `v` is complete. -/
def Search.popRoot (s : Search α) (v : α) : Option (Search α) :=
  (popComponent v s.stack).map fun popped => { s with
    stack := popped.2
    onStack := s.onStack.filter (· ∉ popped.1)
    result := s.result ++ [popped.1] }

/-- The iterator of `v` is at its end. -/
def Search.close (s : Search α) (v : α) (work : List (α × List α)) : Option (Search α) := do
  let l ← s.low.get? v
  let i ← s.index.get? v
  let s ← if l = i then s.popRoot v else some s
  match work with
  | [] => some { s with work := [] }
  | (parent, rest) :: work => Search.lower { s with work := (parent, rest) :: work } parent l

variable (adj : α → List α)

/-- A node that was not seen before. -/
def Search.visit (s : Search α) (v : α) : Search α where
  index := s.index.set v s.counter
  low := s.low.set v s.counter
  onStack := setAdd v s.onStack
  stack := v :: s.stack
  result := s.result
  counter := s.counter + 1
  work := (v, adj v) :: s.work

/-- A step of the loop: the next successor of the node on top is visited or looked at, or the node
    is done. It is `none` where the stack ends before the component does. -/
def Search.step (s : Search α) : Option (Search α) :=
  match s.work with
  | [] => some s
  | (v, []) :: work => s.close v work
  | (v, w :: rest) :: work =>
      let s := { s with work := (v, rest) :: work }
      match s.index.get? w with
      | none => some (s.visit adj w)
      | some i => if w ∈ s.onStack then s.lower v i else some s

/-- `while work`, with fuel. -/
def Search.run : Nat → Search α → Option (Search α)
  | 0, s => if s.work.isEmpty then some s else none
  | fuel + 1, s => if s.work.isEmpty then some s else (s.step adj).bind (Search.run fuel)

/-- One round of the loop over the nodes. -/
def Search.explore (fuel : Nat) (s : Search α) (root : α) : Option (Search α) :=
  if (s.index.get? root).isSome then some s else (s.visit adj root).run adj fuel

/-- `_sccs` -/
def sccs (fuel : Nat) (nodes : List α) : Option (List (List α)) :=
  (nodes.foldlM (Search.explore adj fuel) .empty).map Search.result

/-- A step takes an edge or ends a node. -/
def searchFuel (nodes : List α) : Nat := (nodes.map fun v => (adj v).length + 2).sum

end

/-! ## Foreign keys -/

/-- A row of `fk_edges`. -/
structure FkEdgeRow where
  childRelationOid : Option Int
  parentRelationOid : Option Int

/-- The rows that the analysis reads. -/
structure FkSnapshot where
  relations : List RelationRow
  fkEdges : List FkEdgeRow

/-- `_qname` -/
def qname (relations : List RelationRow) (oid : Option Int) : Option Str :=
  (relByOid relations oid).map RelationRow.label

/-- What the loop over the edges collects. -/
structure FkGraph where
  adj : Dict Str (List Str)
  nodes : List Str
  selfRefs : List Str

/-- The loop over the foreign keys: tables that both are known become nodes, and a table that refers
    to itself is remembered apart. -/
def addEdge (relations : List RelationRow) (graph : FkGraph) (edge : FkEdgeRow) : FkGraph :=
  match qname relations edge.childRelationOid, qname relations edge.parentRelationOid with
  | some child, some parent =>
      let nodes := setAdd parent (setAdd child graph.nodes)
      if child = parent then
        { graph with nodes := nodes, selfRefs := setAdd child graph.selfRefs }
      else
        { graph with
          nodes := nodes
          adj := graph.adj.set child (setAdd parent ((graph.adj.get? child).getD [])) }
  | _, _ => graph

/-- The graph of all foreign keys. -/
def fkGraph (snapshot : FkSnapshot) : FkGraph :=
  snapshot.fkEdges.foldl (addEdge snapshot.relations) ⟨.empty, [], []⟩

/-- `sorted(names)` -/
def sortedNames (names : List Str) : List Str := names.insertionSort fun a b => decide (a ≤ b)

/-- `sorted(adj.get(v, set()))` -/
def FkGraph.successors (graph : FkGraph) (v : Str) : List Str :=
  sortedNames ((graph.adj.get? v).getD [])

/-! ## The report -/

/-- The two kinds of findings. -/
inductive CycleCategory
  | circularDependency
  | selfReference
  deriving DecidableEq

/-- A finding, with the tables that it is about. -/
structure CycleItem where
  category : CycleCategory
  severity : Severity
  tables : List Str
  detail : Str
  deriving DecidableEq

/-- The finding of a component of two tables or more. -/
def circularItem (comp : List Str) : CycleItem :=
  let tables := sortedNames comp
  { category := .circularDependency
    severity := .warning
    tables := tables
    detail := "Circular foreign-key dependency: ".toList ++ join " → ".toList tables ++
      " — no create/drop/load order works without deferring constraints.".toList }

/-- The finding of a table that refers to itself. -/
def selfItem (table : Str) : CycleItem where
  category := .selfReference
  severity := .info
  tables := [table]
  detail := table ++
    " references itself (hierarchical/tree) — usually fine; load roots first.".toList

/-- The order of the findings: by severity and then by tables. -/
def cycleItemLe (i j : CycleItem) : Bool :=
  decide (i.severity.rank < j.severity.rank) ||
    (decide (i.severity.rank = j.severity.rank) && decide (i.tables ≤ j.tables))

/-- The findings and their numbers. -/
structure CycleReport where
  items : List CycleItem
  circularDependencies : Nat
  selfReferences : Nat
  total : Nat

/-- `detect_fk_cycles` -/
def detectFkCycles (snapshot : FkSnapshot) : Option CycleReport := do
  let graph := fkGraph snapshot
  let nodes := sortedNames graph.nodes
  let comps ← sccs graph.successors (searchFuel graph.successors nodes) nodes
  let items := (comps.filter fun comp => 2 ≤ comp.length).map circularItem ++
    (sortedNames graph.selfRefs).map selfItem
  let sorted := items.insertionSort fun i j => cycleItemLe i j
  return {
    items := sorted
    circularDependencies := sorted.countP fun i => i.category = .circularDependency
    selfReferences := graph.selfRefs.length
    total := sorted.length }

end PgErdCloud.Spec
