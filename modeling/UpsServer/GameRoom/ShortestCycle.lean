import UpsServer.GameRoom.GameGraph

open CycleSearch

namespace UpsServer.GameGraph

variable {n : Nat}

/-- The arguments of a recursive call describe the path that led to it. -/
structure DepthsOf (path : List (Fin n)) (parent : Int) (d : Nat) (depth : Fin n → Int) : Prop where
  depth_next : d = path.length + 1
  parent_head : ∀ v : Fin n, (v.val : Int) = parent ↔ path.head? = some v
  depth_visited : ∀ v ∈ path, depth v = path.length - path.idxOf v
  depth_unvisited : ∀ v ∉ path, depth v = -1

private theorem depthsOf_nil : DepthsOf ([] : List (Fin n)) (-1) 1 fun _ => -1 := by
  refine ⟨rfl, fun v => ?_, fun v hv => (List.not_mem_nil hv).elim, fun _ _ => rfl⟩
  simp only [List.head?_nil, reduceCtorEq]

section Call

variable {path : List (Fin n)} {parent : Int} {d : Nat} {depth : Fin n → Int}

theorem DepthsOf.visited_iff (h : DepthsOf path parent d depth) {node : Fin n} :
    depth node ≠ -1 ↔ node ∈ path := by
  constructor
  · intro hdepth
    by_contra hnode
    exact hdepth (h.depth_unvisited node hnode)
  · intro hnode
    have hlt := List.idxOf_lt_length_iff.mpr hnode
    rw [h.depth_visited node hnode]
    omega

theorem DepthsOf.push (h : DepthsOf path parent d depth) {node : Fin n} (hnode : node ∉ path) :
    DepthsOf (node :: path) node.val (d + 1) (Function.update depth node (d : Int)) := by
  refine ⟨by rw [h.depth_next, List.length_cons], fun v => ?_, fun v hv => ?_, fun v hv => ?_⟩
  · rw [List.head?_cons, Option.some.injEq, Fin.ext_iff, eq_comm]
    omega
  · by_cases hne : v = node
    · subst hne
      rw [Function.update_self, List.idxOf_cons_self, List.length_cons, h.depth_next]
      omega
    · have hmem := List.mem_of_ne_of_mem hne hv
      rw [Function.update_of_ne hne, List.idxOf_cons_ne _ (Ne.symm hne), List.length_cons,
        h.depth_visited v hmem]
      omega
  · rw [List.mem_cons, not_or] at hv
    rw [Function.update_of_ne hv.1, h.depth_unvisited v hv.2]

end Call

/-- A loop that keeps the least value returns the initial value or one of those
it was shown, and none that is greater than any of them. -/
theorem foldl_min_spec {α : Type} (l : List α) (P : α → Prop) [DecidablePred P] (f : α → Nat) (init : Nat) :
    let result := l.foldl (fun answer v => if P v then min answer (f v) else answer) init
    (result = init ∨ ∃ v ∈ l, P v ∧ result = f v) ∧ result ≤ init ∧ ∀ v ∈ l, P v → result ≤ f v := by
  induction l generalizing init with
  | nil => simp
  | cons a l ih =>
    obtain ⟨hvalue, hinit, hle⟩ := ih (if P a then min init (f a) else init)
    simp only [List.foldl_cons, List.forall_mem_cons]
    by_cases ha : P a
    · simp only [ha, if_true] at hvalue hinit hle ⊢
      refine ⟨?_, hinit.trans (min_le_left _ _), fun _ => hinit.trans (min_le_right _ _), hle⟩
      rcases hvalue with hvalue | ⟨v, hv, hP, hvalue⟩
      · rcases min_choice init (f a) with hmin | hmin
        · exact .inl (hvalue.trans hmin)
        · exact .inr ⟨a, List.mem_cons_self, ha, hvalue.trans hmin⟩
      · exact .inr ⟨v, List.mem_cons_of_mem _ hv, hP, hvalue⟩
    · simp only [ha, if_false, false_imp_iff, true_and] at hvalue hinit hle ⊢
      refine ⟨?_, hinit, hle⟩
      rcases hvalue with hvalue | ⟨v, hv, hP, hvalue⟩
      · exact .inl hvalue
      · exact .inr ⟨v, List.mem_cons_of_mem _ hv, hP, hvalue⟩

/-- A call returns the least number the search reports from there, or `INT_MAX`. -/
theorem findShortestCycleFrom_spec {g : GameGraph n} (hg : g.Symmetric) {path : List (Fin n)} {node : Fin n}
    {parent : Int} {d : Nat} {depth : Fin n → Int} (h : DepthsOf path parent d depth) :
    (g.findShortestCycleFrom node parent d depth = INT_MAX ∨
        Reports g.graph path node (g.findShortestCycleFrom node parent d depth)) ∧
      ∀ k, Reports g.graph path node k → g.findShortestCycleFrom node parent d depth ≤ k := by
  induction node, parent, d, depth using findShortestCycleFrom.induct generalizing path with
  | case1 node parent d depth hdepth =>
    have hnode := h.visited_iff.mp hdepth
    have hlt := List.idxOf_lt_length_iff.mpr hnode
    have hvalue : g.findShortestCycleFrom node parent d depth = path.idxOf node + 1 := by
      rw [findShortestCycleFrom, dif_pos hdepth, h.depth_visited node hnode, h.depth_next]
      omega
    rw [hvalue]
    refine ⟨.inr (.close hnode), fun k hk => ?_⟩
    cases hk with
    | close _ => exact le_rfl
    | step hnotMem => exact (hnotMem hnode).elim
  | case2 node parent d depth hdepth ih =>
    have hnode : node ∉ path := fun hmem => hdepth (h.visited_iff.mpr hmem)
    rw [findShortestCycleFrom, dif_neg hdepth]
    obtain ⟨hvalue, _, hle⟩ := foldl_min_spec (List.finRange n)
      (fun v => (v.val : Int) ≠ parent ∧ g.adjacencyMatrix node v ≠ 0)
      (fun v => g.findShortestCycleFrom v node.val (d + 1) (Function.update depth node (d : Int))) INT_MAX
    refine ⟨?_, fun k hk => ?_⟩
    · rcases hvalue with hvalue | ⟨v, _, ⟨hparent, hv⟩, hvalue⟩
      · exact .inl hvalue
      · rcases (ih v (h.push hnode)).1 with hmax | hreports
        · exact .inl (hvalue.trans hmax)
        · refine .inr (hvalue ▸ .step hnode (hg.graph_adj.mpr hv) ?_ hreports)
          exact fun hhead => hparent ((h.parent_head v).mpr hhead)
    · cases hk with
      | close hmem => exact (hnode hmem).elim
      | @step _ _ v _ _ hv hparent hreports =>
        refine (hle v (List.mem_finRange v) ⟨?_, hg.graph_adj.mp hv⟩).trans ((ih v (h.push hnode)).2 k hreports)
        exact fun heq => hparent ((h.parent_head v).mp heq)

section Search

variable [NeZero n] {g : GameGraph n}

/-- The search returns the least number it reports from node 0, or `INT_MAX`. -/
theorem findShortestCycle_spec (hg : g.Symmetric) :
    (g.findShortestCycle = INT_MAX ∨ Reports g.graph [] 0 g.findShortestCycle) ∧
      ∀ k, Reports g.graph [] 0 k → g.findShortestCycle ≤ k :=
  findShortestCycleFrom_spec hg depthsOf_nil

/-- Three pairwise adjacent nodes. -/
def HasTriangle (g : GameGraph n) : Prop :=
  ∃ a b c, g.graph.Adj a b ∧ g.graph.Adj b c ∧ g.graph.Adj c a

instance : DecidableRel g.graph.Adj :=
  inferInstanceAs (DecidableRel (SimpleGraph.fromRel fun i j => g.adjacencyMatrix i j ≠ 0).Adj)

instance : Decidable g.HasTriangle :=
  inferInstanceAs (Decidable (∃ a b c, g.graph.Adj a b ∧ g.graph.Adj b c ∧ g.graph.Adj c a))

/-- Three pairwise adjacent nodes in the component of node 0. -/
def HasTriangleAtZero (g : GameGraph n) : Prop :=
  ∃ a b c, g.graph.Adj a b ∧ g.graph.Adj b c ∧ g.graph.Adj c a ∧ g.graph.Reachable 0 a

theorem HasTriangleAtZero.hasTriangle (h : g.HasTriangleAtZero) : g.HasTriangle := by
  obtain ⟨a, b, c, hab, hbc, hca, _⟩ := h
  exact ⟨a, b, c, hab, hbc, hca⟩

/-- Only triangles in the component of node 0 are found. -/
theorem hasCycleOfLength3_iff (hg : g.Undirected) :
    g.hasCycleOfLength3 = true ↔ g.HasTriangleAtZero := by
  obtain ⟨hvalue, hle⟩ := findShortestCycle_spec hg.symmetric
  rw [hasCycleOfLength3, beq_iff_eq, HasTriangleAtZero, ← reports_three_iff]
  constructor
  · intro hthree
    rw [hthree] at hvalue
    exact hvalue.resolve_left (by decide)
  · intro hreports
    have hmax := hle 3 hreports
    rcases hvalue with hvalue | hvalue
    · rw [hvalue] at hmax
      exact absurd hmax (by decide)
    · obtain ⟨_, c, hc, _, hlength⟩ := reports_nil_iff.mp hvalue
      have hmin := hc.three_le_length
      omega

/-- The lengths of the cycles in the component of node 0. -/
def cycleLengths (g : GameGraph n) : Set Nat :=
  {k | ∃ (v : Fin n) (c : g.graph.Walk v v), c.IsCycle ∧ g.graph.Reachable 0 v ∧ c.length = k}

private theorem mem_cycleLengths {k : Nat} : k ∈ g.cycleLengths ↔ Reports g.graph [] 0 k :=
  reports_nil_iff.symm

/-- A cycle visits each node once. -/
theorem le_of_mem_cycleLengths {k : Nat} (h : k ∈ g.cycleLengths) : k ≤ n := by
  obtain ⟨v, c, hc, _, rfl⟩ := h
  have hlength := hc.support_nodup.length_le_card
  rwa [List.length_tail, SimpleGraph.Walk.length_support, Nat.add_sub_cancel, Fintype.card_fin]
    at hlength

private theorem findShortestCycle_le (g : GameGraph n) : g.findShortestCycle ≤ INT_MAX := by
  rw [findShortestCycle, findShortestCycleFrom, dif_neg (not_not.mpr rfl)]
  exact (foldl_min_spec (List.finRange n) _ _ INT_MAX).2.1

/-- The search returns the length of a shortest cycle in the component of node 0,
as far as it is an `int`, and `INT_MAX` without a cycle. -/
theorem findShortestCycle_exact (hg : g.Symmetric) :
    (∃ k, IsLeast g.cycleLengths k ∧ g.findShortestCycle = min k INT_MAX ∧
        (n ≤ INT_MAX → g.findShortestCycle = k)) ∨
      g.cycleLengths = ∅ ∧ g.findShortestCycle = INT_MAX := by
  obtain ⟨hvalue, hle⟩ := findShortestCycle_spec hg
  rcases Set.eq_empty_or_nonempty g.cycleLengths with hempty | hne
  · refine .inr ⟨hempty, hvalue.resolve_right fun hreports => ?_⟩
    exact Set.notMem_empty _ (hempty ▸ mem_cycleLengths.mpr hreports)
  · obtain ⟨k, hk, hmin⟩ := wellFounded_lt.has_min g.cycleLengths hne
    have hleast : IsLeast g.cycleLengths k := ⟨hk, fun k' hk' => not_lt.mp (hmin k' hk')⟩
    have hexact : g.findShortestCycle = min k INT_MAX := by
      apply le_antisymm (le_min (hle k (mem_cycleLengths.mp hk)) g.findShortestCycle_le)
      rcases hvalue with hvalue | hvalue
      · exact (min_le_right _ _).trans hvalue.ge
      · exact (min_le_left _ _).trans (hleast.2 (mem_cycleLengths.mpr hvalue))
    refine .inl ⟨k, hleast, hexact, fun hn => ?_⟩
    rw [hexact, min_eq_left ((le_of_mem_cycleLengths hk).trans hn)]

end Search

/-- Three edges that make a triangle. -/
def triangle : GameGraph GAME_NODE_NUM :=
  ((({} : GameGraph GAME_NODE_NUM).addUndirectedEdge 0 1).addUndirectedEdge 1 2).addUndirectedEdge 2 0

theorem findShortestCycle_exact_triangle :
    ∃ k, IsLeast triangle.cycleLengths k ∧ triangle.findShortestCycle = k := by
  have htriangle : triangle.Undirected :=
    ((undirected_empty.addUndirectedEdge (by decide)).addUndirectedEdge
      (by decide)).addUndirectedEdge (by decide)
  rcases findShortestCycle_exact htriangle.symmetric with ⟨k, hk, _, hvalue⟩ | ⟨hempty, _⟩
  · exact ⟨k, hk, hvalue (by decide)⟩
  · have hthree : 3 ∈ triangle.cycleLengths := by
      refine mem_cycleLengths.mpr (reports_three_iff.mpr ⟨0, 1, 2, ?_, ?_, ?_, .refl _⟩) <;>
        exact htriangle.graph_adj.mpr (by decide)
    exact (Set.notMem_empty _ (hempty ▸ hthree)).elim

end UpsServer.GameGraph
