import Mathlib.Algebra.GroupWithZero.Nat
import Mathlib.Data.Fintype.Pi
import UpsServer.Basic
import UpsServer.Lib.CycleSearch

open CycleSearch

namespace UpsServer

def INT_MAX : Nat := 2147483647

/-- The adjacency matrix of a graph with `n` nodes. -/
structure GameGraph (n : Nat) where
  adjacencyMatrix : Fin n → Fin n → Nat := fun _ _ => 0
deriving DecidableEq

namespace GameGraph

/-- The number of nodes of the graphs of a game. -/
def GAME_NODE_NUM : Nat := 6

instance : NeZero GAME_NODE_NUM := ⟨by decide⟩

variable {n : Nat}

def isValidEdge (_ : GameGraph n) (source destination : Nat) : Bool :=
  -- 1 node cycles are not allowed
  if source = destination then false
  else if source ≥ n ∨ destination ≥ n then false
  else true

/-- The value of `_adjacencyMatrix[source][destination]`. -/
def entry (g : GameGraph n) (source destination : Nat) : Nat :=
  if h : source < n ∧ destination < n then g.adjacencyMatrix ⟨source, h.1⟩ ⟨destination, h.2⟩ else 0

/-- What `hasUndirectedEdge` returns on a valid edge. -/
def isUndirectedEdge (g : GameGraph n) (source destination : Nat) : Bool :=
  g.entry source destination == 1 && g.entry destination source == 1

def hasUndirectedEdge (g : GameGraph n) (source destination : Nat) : Except Fault Bool :=
  if !g.isValidEdge source destination then
    .error (.runtimeError ("GameGraph::hasUndirectedEdge: ERROR - [" ++ toString source ++ "," ++
      toString destination ++ "] is not a valid edge."))
  else .ok (g.isUndirectedEdge source destination)

/-- Writes both entries of an edge whose nodes are in range. -/
def addUndirectedEdge (g : GameGraph n) (source destination : Nat) : GameGraph n where
  adjacencyMatrix i j :=
    if i.val = source ∧ j.val = destination ∨ i.val = destination ∧ j.val = source then 1
    else g.adjacencyMatrix i j

private theorem card_unvisited_lt {depth : Fin n → Int} {node : Fin n} {d : Nat} (h : depth node = -1) :
    (Finset.univ.filter fun v => Function.update depth node (d : Int) v = -1).card <
      (Finset.univ.filter fun v => depth v = -1).card := by
  apply Finset.card_lt_card
  rw [Finset.ssubset_iff_of_subset]
  · refine ⟨node, by simpa using h, ?_⟩
    simp only [Finset.mem_filter, Function.update_self, not_and]
    omega
  · intro v hv
    simp only [Finset.mem_filter, Finset.mem_univ, true_and] at hv ⊢
    by_cases hnode : v = node
    · rwa [hnode]
    · rwa [Function.update_of_ne hnode] at hv

/-- The recursion `_findShortestCycle`. The array `depth` is passed by value. -/
def findShortestCycleFrom (g : GameGraph n) (node : Fin n) (parent : Int) (d : Nat)
    (depth : Fin n → Int) : Nat :=
  if _h : depth node ≠ -1 then ((d : Int) - depth node).toNat
  else
    -- for each neighbor of node, ignore parent and non-neighbors
    (List.finRange n).foldl (fun answer v =>
      if (v.val : Int) ≠ parent ∧ g.adjacencyMatrix node v ≠ 0 then
        min answer
          (g.findShortestCycleFrom v node.val (d + 1) (Function.update depth node (d : Int)))
      else answer) INT_MAX
termination_by (Finset.univ.filter fun v => depth v = -1).card
decreasing_by exact card_unvisited_lt (not_not.mp _h)

def findShortestCycle [NeZero n] (g : GameGraph n) : Nat :=
  g.findShortestCycleFrom 0 (-1) 1 fun _ => -1

def hasCycleOfLength3 [NeZero n] (g : GameGraph n) : Bool := g.findShortestCycle == 3

/-- The inner loop of `serializeUndirectedEdges`, whose edges are all valid. -/
def serializeEdgesOf (g : GameGraph n) (i : Nat) (result : Str) : Str :=
  (List.range n).foldl (fun result j =>
    if j ≤ i then result
    else if !g.isUndirectedEdge i j then result
    else
      let result := result ++ '{' :: (toString i).toList ++ ',' :: (toString j).toList ++ ['}']
      if i = n - 2 ∧ j = n - 1 then result
      else result ++ [',']) result

def serializeUndirectedEdges (g : GameGraph n) : Str :=
  (List.range n).foldl (fun result i => g.serializeEdgesOf i result) []

def clear (_ : GameGraph n) : GameGraph n := {}

/-- The matrix is that of an undirected graph without loops. -/
structure Undirected (g : GameGraph n) : Prop where
  symm : ∀ i j, g.adjacencyMatrix i j = g.adjacencyMatrix j i
  zero_one : ∀ i j, g.adjacencyMatrix i j = 0 ∨ g.adjacencyMatrix i j = 1
  diagonal : ∀ i, g.adjacencyMatrix i i = 0

/-- A symmetric matrix without loops, whatever its other entries are. -/
structure Symmetric (g : GameGraph n) : Prop where
  symm : ∀ i j, g.adjacencyMatrix i j = g.adjacencyMatrix j i
  diagonal : ∀ i, g.adjacencyMatrix i i = 0

theorem Undirected.symmetric {g : GameGraph n} (h : g.Undirected) : g.Symmetric :=
  ⟨h.symm, h.diagonal⟩

/-- The graph a matrix stands for. -/
def graph (g : GameGraph n) : SimpleGraph (Fin n) := .fromRel fun i j => g.adjacencyMatrix i j ≠ 0

/-- The edges of an undirected graph, each with its lesser node first. -/
def edges (g : GameGraph n) : Finset (Fin n × Fin n) :=
  Finset.univ.filter fun e => e.1 < e.2 ∧ g.adjacencyMatrix e.1 e.2 = 1

theorem undirected_empty : Undirected ({} : GameGraph n) :=
  ⟨fun _ _ => rfl, fun _ _ => .inl rfl, fun _ => rfl⟩

theorem isValidEdge_eq_true {g : GameGraph n} {source destination : Nat} :
    g.isValidEdge source destination = true ↔
      source ≠ destination ∧ source < n ∧ destination < n := by
  simp only [isValidEdge, Bool.if_false_left, Bool.and_true, Bool.and_eq_true, Bool.not_eq_true',
    decide_eq_false_iff_not, not_or, Nat.not_le]

theorem Undirected.addUndirectedEdge {g : GameGraph n} (h : g.Undirected) {source destination : Nat}
    (hvalid : g.isValidEdge source destination = true) :
    (g.addUndirectedEdge source destination).Undirected := by
  obtain ⟨hne, _, _⟩ := isValidEdge_eq_true.mp hvalid
  refine ⟨fun i j => ?_, fun i j => ?_, fun i => ?_⟩
  · simp only [GameGraph.addUndirectedEdge, h.symm j i]
    congr 1
    rw [eq_iff_iff]
    tauto
  · simp only [GameGraph.addUndirectedEdge]
    split
    · exact .inr rfl
    · exact h.zero_one i j
  · simp only [GameGraph.addUndirectedEdge, h.diagonal]
    rw [if_neg]
    omega

theorem Symmetric.graph_adj {g : GameGraph n} (h : g.Symmetric) {i j : Fin n} :
    g.graph.Adj i j ↔ g.adjacencyMatrix i j ≠ 0 := by
  rw [graph, SimpleGraph.fromRel_adj, h.symm j i, or_self, and_iff_right_iff_imp]
  rintro hentry rfl
  exact hentry (h.diagonal i)

theorem Undirected.graph_adj {g : GameGraph n} (h : g.Undirected) {i j : Fin n} :
    g.graph.Adj i j ↔ g.adjacencyMatrix i j = 1 := by
  have hentry := h.zero_one i j
  rw [h.symmetric.graph_adj]
  omega

theorem entry_of_lt {g : GameGraph n} {i j : Nat} (hi : i < n) (hj : j < n) :
    g.entry i j = g.adjacencyMatrix ⟨i, hi⟩ ⟨j, hj⟩ :=
  dif_pos ⟨hi, hj⟩

theorem edges_addUndirectedEdge (g : GameGraph n) {i j : Fin n} (hij : i < j) :
    (g.addUndirectedEdge i.val j.val).edges = insert (i, j) g.edges := by
  ext ⟨a, b⟩
  simp only [edges, addUndirectedEdge, Finset.mem_filter, Finset.mem_univ, true_and,
    Finset.mem_insert, Prod.mk.injEq, Fin.val_inj]
  by_cases hab : a = i ∧ b = j
  · simp [hab, hij]
  · have hba : ¬ (a = j ∧ b = i ∧ a < b) := by
      rintro ⟨rfl, rfl, hlt⟩
      exact absurd hlt (not_lt.mpr hij.le)
    by_cases hlt : a < b
    · have hno : ¬ (a = i ∧ b = j ∨ a = j ∧ b = i) := by tauto
      rw [if_neg hno]
      tauto
    · simp [hab, hlt]

theorem addUndirectedEdge_comm (g : GameGraph n) (source destination : Nat) :
    g.addUndirectedEdge source destination = g.addUndirectedEdge destination source := by
  simp only [addUndirectedEdge, or_comm]

theorem Undirected.isUndirectedEdge_eq_true {g : GameGraph n} (h : g.Undirected) (i j : Fin n) :
    g.isUndirectedEdge i.val j.val = true ↔ g.adjacencyMatrix i j = 1 := by
  rw [isUndirectedEdge, entry_of_lt i.2 j.2, entry_of_lt j.2 i.2, h.symm ⟨j, _⟩]
  simp

/-- A new edge is one more edge. -/
theorem card_edges_addUndirectedEdge {g : GameGraph n} (h : g.Undirected) {source destination : Nat}
    (hvalid : g.isValidEdge source destination = true)
    (hnew : g.isUndirectedEdge source destination = false) :
    (g.addUndirectedEdge source destination).edges.card = g.edges.card + 1 := by
  obtain ⟨hne, hsource, hdestination⟩ := isValidEdge_eq_true.mp hvalid
  have hentry : g.adjacencyMatrix ⟨source, hsource⟩ ⟨destination, hdestination⟩ ≠ 1 := fun hone =>
    Bool.false_ne_true (hnew.symm.trans ((h.isUndirectedEdge_eq_true _ _).mpr hone))
  rcases lt_or_gt_of_ne hne with hlt | hgt
  · have hedges :=
      edges_addUndirectedEdge g (i := ⟨source, hsource⟩) (j := ⟨destination, hdestination⟩) hlt
    rw [hedges, Finset.card_insert_of_notMem]
    simp [edges, hentry]
  · have hedges :=
      edges_addUndirectedEdge g (i := ⟨destination, hdestination⟩) (j := ⟨source, hsource⟩) hgt
    rw [addUndirectedEdge_comm, hedges, Finset.card_insert_of_notMem]
    rw [h.symm] at hentry
    simp [edges, hentry]

end GameGraph

end UpsServer
