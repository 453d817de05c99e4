import UpsServer.GameRoom.GameGraph
import UpsServer.Protocol.ObjectList

namespace UpsServer

/-- The items of an edge in an object list. -/
def edgeFields (e : Nat × Nat) : List Str := [(toString e.1).toList, (toString e.2).toList]

private theorem edgeFields_inj {e e' : Nat × Nat} (h : edgeFields e = edgeFields e') : e = e' := by
  obtain ⟨hsource, h⟩ := List.cons.inj h
  obtain ⟨hdestination, _⟩ := List.cons.inj h
  exact Prod.ext (toString_inj hsource) (toString_inj hdestination)

/-- The edges `[i,j]` with `i < j` that were added in either direction, in
lexicographic order. -/
def orderedEdges (n : Nat) (added : List (Nat × Nat)) : List (Nat × Nat) :=
  ((List.range n).product (List.range n)).filter fun e =>
    e.1 < e.2 ∧ ((e.1, e.2) ∈ added ∨ (e.2, e.1) ∈ added)

theorem mem_orderedEdges {n : Nat} {added : List (Nat × Nat)} {e : Nat × Nat} :
    e ∈ orderedEdges n added ↔ e.1 < n ∧ e.2 < n ∧ e.1 < e.2 ∧
      ((e.1, e.2) ∈ added ∨ (e.2, e.1) ∈ added) := by
  have hnodes : e ∈ (List.range n).product (List.range n) ↔ e.1 < n ∧ e.2 < n :=
    List.mem_product.trans (and_congr List.mem_range List.mem_range)
  rw [orderedEdges, List.mem_filter, hnodes, decide_eq_true_iff, and_assoc]

private theorem orderedEdges_pairwise (n : Nat) (added : List (Nat × Nat)) :
    (orderedEdges n added).Pairwise (Prod.Lex (· < ·) (· < ·)) := by
  apply List.Pairwise.filter
  rw [List.product, List.pairwise_flatMap]
  constructor
  · intro i _
    rw [List.pairwise_map]
    exact List.pairwise_lt_range.imp fun hlt => .right _ hlt
  · refine List.pairwise_lt_range.imp fun hlt e he e' he' => ?_
    obtain ⟨_, _, rfl⟩ := List.mem_map.mp he
    obtain ⟨_, _, rfl⟩ := List.mem_map.mp he'
    exact .left _ _ hlt

/-- No edge stands behind the one between the last two nodes. -/
theorem orderedEdges_eq_append {n : Nat} {added : List (Nat × Nat)}
    (h : (n - 2, n - 1) ∈ orderedEdges n added) :
    ∃ init, orderedEdges n added = init ++ [(n - 2, n - 1)] ∧ (n - 2, n - 1) ∉ init := by
  obtain ⟨init, later, heq⟩ := List.append_of_mem h
  have hpairwise := orderedEdges_pairwise n added
  rw [heq, List.pairwise_append, List.pairwise_cons] at hpairwise
  obtain ⟨_, ⟨hlater, _⟩, hinit⟩ := hpairwise
  have hnil : later = [] := by
    apply List.eq_nil_iff_forall_not_mem.mpr
    intro e he
    have hmem : e ∈ orderedEdges n added := by
      rw [heq]
      exact List.mem_append_right _ (List.mem_cons_of_mem _ he)
    obtain ⟨hsource, hdestination, hlt, _⟩ := mem_orderedEdges.mp hmem
    rcases Prod.lex_def.mp (hlater e he) with hlater | ⟨heq, hlater⟩ <;> simp only at * <;> omega
  subst hnil
  refine ⟨init, heq, fun hmem => ?_⟩
  rcases Prod.lex_def.mp (hinit _ hmem _ List.mem_cons_self) with hlt | ⟨_, hlt⟩ <;>
    exact absurd hlt (Nat.lt_irrefl _)

namespace GameGraph

variable {n : Nat} {added : List (Nat × Nat)}

/-- The graph that a sequence of `addUndirectedEdge` builds. -/
def ofEdges (added : List (Nat × Nat)) : GameGraph n :=
  added.foldl (fun g e => g.addUndirectedEdge e.1 e.2) {}

private theorem isUndirectedEdge_addUndirectedEdge (g : GameGraph n) (source destination : Nat) {i j : Nat}
    (hi : i < n) (hj : j < n) :
    (g.addUndirectedEdge source destination).isUndirectedEdge i j = true ↔
      (i, j) = (source, destination) ∨ (j, i) = (source, destination) ∨
        g.isUndirectedEdge i j = true := by
  have hreversed : (j = source ∧ i = destination ∨ j = destination ∧ i = source) ↔
      (i = source ∧ j = destination ∨ i = destination ∧ j = source) := by
    rw [or_comm, and_comm (a := j = destination), and_comm (a := j = source)]
  simp only [isUndirectedEdge, entry_of_lt hi hj, entry_of_lt hj hi, addUndirectedEdge,
    Prod.mk.injEq, Bool.and_eq_true, beq_iff_eq]
  by_cases hadded : i = source ∧ j = destination ∨ i = destination ∧ j = source
  · rw [if_pos hadded, if_pos (hreversed.mpr hadded)]
    rcases hadded with hsame | hswapped
    · exact iff_of_true ⟨rfl, rfl⟩ (.inl hsame)
    · exact iff_of_true ⟨rfl, rfl⟩ (.inr (.inl hswapped.symm))
  · obtain ⟨hsame, hswapped⟩ := not_or.mp hadded
    rw [if_neg hadded, if_neg (mt hreversed.mp hadded), or_iff_right hsame,
      or_iff_right fun h => hswapped h.symm]

private theorem isUndirectedEdge_ofEdges {i j : Nat} (hi : i < n) (hj : j < n) :
    (ofEdges added : GameGraph n).isUndirectedEdge i j = true ↔ (i, j) ∈ added ∨ (j, i) ∈ added := by
  have hfold : ∀ (added : List (Nat × Nat)) (g : GameGraph n),
      (added.foldl (fun g e => g.addUndirectedEdge e.1 e.2) g).isUndirectedEdge i j = true ↔
        g.isUndirectedEdge i j = true ∨ (i, j) ∈ added ∨ (j, i) ∈ added := by
    intro added
    induction added with
    | nil => simp
    | cons e added ih =>
      intro g
      rw [List.foldl_cons, ih, isUndirectedEdge_addUndirectedEdge g e.1 e.2 hi hj]
      simp only [List.mem_cons, Prod.mk.eta, or_assoc, or_left_comm]
  have hempty : ({} : GameGraph n).isUndirectedEdge i j = false := by
    simp [isUndirectedEdge, entry_of_lt hi hj]
  rw [ofEdges, hfold, hempty]
  simp

/-- What a turn of the inner loop writes for an edge of the graph: the separator is
left out behind the edge between the last two nodes only. -/
def edgePiece (n : Nat) (e : Nat × Nat) : Str :=
  lineText (edgeFields e) ++ if e.1 = n - 2 ∧ e.2 = n - 1 then [] else [',']

private theorem serializeEdgesOf_eq (g : GameGraph n) (i : Nat) (result : Str) :
    g.serializeEdgesOf i result = result ++ (List.range n).flatMap fun j =>
      if i < j ∧ g.isUndirectedEdge i j = true then edgePiece n (i, j) else [] := by
  rw [serializeEdgesOf, List.flatMap_def, ← List.foldl_append_eq_append]
  congr 1
  funext result j
  by_cases hij : j ≤ i
  · rw [if_pos hij, if_neg fun h => Nat.not_le.mpr h.1 hij, List.append_nil]
  · rw [if_neg hij]
    cases hedge : g.isUndirectedEdge i j with
    | false => simp
    | true =>
      have hcond : i < j ∧ true = true := ⟨Nat.lt_of_not_le hij, rfl⟩
      have htext : result ++ '{' :: (toString i).toList ++ ',' :: (toString j).toList ++ ['}'] =
          result ++ lineText (edgeFields (i, j)) := by
        simp [lineText, edgeFields, List.intercalate]
      rw [if_pos hcond, edgePiece, Bool.not_true, if_neg Bool.false_ne_true, htext]
      by_cases hlast : i = n - 2 ∧ j = n - 1
      · rw [if_pos hlast, if_pos hlast, List.append_nil]
      · rw [if_neg hlast, if_neg hlast, List.append_assoc]

private theorem flatMap_filter {α β : Type} (l : List α) (p : α → Bool) (f : α → List β) :
    (l.filter p).flatMap f = l.flatMap fun x => if p x then f x else [] := by
  induction l with
  | nil => rfl
  | cons x l ih => cases hp : p x <;> simp [hp, ih]

private theorem serializeUndirectedEdges_eq :
    (ofEdges added : GameGraph n).serializeUndirectedEdges =
      (orderedEdges n added).flatMap (edgePiece n) := by
  have hloops : (ofEdges added : GameGraph n).serializeUndirectedEdges =
      ((List.range n).product (List.range n)).flatMap fun e =>
        if e.1 < e.2 ∧ (ofEdges added : GameGraph n).isUndirectedEdge e.1 e.2 = true then
          edgePiece n e else [] := by
    simp only [serializeUndirectedEdges, serializeEdgesOf_eq, List.foldl_append_eq_append,
      List.nil_append, List.product, List.flatMap_assoc, List.flatMap_map, ← List.flatMap_def]
  rw [hloops, orderedEdges, flatMap_filter, List.flatMap_def, List.flatMap_def]
  congr 1
  apply List.map_congr_left
  intro e he
  obtain ⟨hsource, hdestination⟩ := List.mem_product.mp he
  simp only [isUndirectedEdge_ofEdges (List.mem_range.mp hsource) (List.mem_range.mp hdestination),
    decide_eq_true_eq]

/-- The edges of a graph in the form of an object list. -/
def edgeObjects (n : Nat) (added : List (Nat × Nat)) : List (List Str) :=
  (orderedEdges n added).map edgeFields

private theorem edgePiece_of_ne {e : Nat × Nat} (h : e ≠ (n - 2, n - 1)) :
    edgePiece n e = lineText (edgeFields e) ++ [','] := by
  rw [edgePiece, if_neg fun hlast => h (Prod.ext hlast.1 hlast.2)]

private theorem flatMap_edgePiece {l : List (Nat × Nat)} (h : (n - 2, n - 1) ∉ l) :
    l.flatMap (edgePiece n) = ((l.map edgeFields).map lineText).flatMap fun line => line ++ [','] := by
  rw [List.flatMap_map, List.flatMap_map, List.flatMap_def, List.flatMap_def]
  congr 1
  exact List.map_congr_left fun e he => edgePiece_of_ne fun heq => h (heq ▸ he)

/-- With the edge between the last two nodes the separators come out right. -/
theorem serialize_of_last (h : (n - 2, n - 1) ∈ orderedEdges n added) :
    (ofEdges added : GameGraph n).serializeUndirectedEdges =
      serializeObjectList (edgeObjects n added) := by
  obtain ⟨init, heq, hinit⟩ := orderedEdges_eq_append h
  rw [serializeUndirectedEdges_eq, edgeObjects, heq, List.flatMap_append, flatMap_edgePiece hinit,
    List.flatMap_singleton, edgePiece, if_pos ⟨rfl, rfl⟩, List.append_nil,
    Joined.flatMap_separated_append, serializeObjectList_eq, List.map_append, List.map_append,
    List.map_singleton, List.map_singleton]

/-- Without it, a separator is left at the end. -/
theorem serialize_of_not_last (h : (n - 2, n - 1) ∉ orderedEdges n added)
    (hne : orderedEdges n added ≠ []) :
    (ofEdges added : GameGraph n).serializeUndirectedEdges =
      serializeObjectList (edgeObjects n added) ++ [','] := by
  rw [serializeUndirectedEdges_eq, flatMap_edgePiece h, Joined.flatMap_separated, edgeObjects,
    serializeObjectList_eq]
  simpa using hne

private theorem serialize_eq_iff :
    (ofEdges added : GameGraph n).serializeUndirectedEdges =
        serializeObjectList (edgeObjects n added) ↔
      orderedEdges n added = [] ∨ (n - 2, n - 1) ∈ orderedEdges n added := by
  by_cases hnil : orderedEdges n added = []
  · simp [serializeUndirectedEdges_eq, edgeObjects, hnil, serializeObjectList, List.intercalate]
  · by_cases hlast : (n - 2, n - 1) ∈ orderedEdges n added
    · simp [serialize_of_last hlast, hlast]
    · simp [serialize_of_not_last hlast hnil, hlast, hnil]

private theorem count_edgeFields {c : Char} (hc : c.isDigit = false) (e : Nat × Nat) :
    (edgeFields e).map (List.count c) = [0, 0] := by
  simp only [edgeFields, List.map_cons, List.map_nil, count_toString hc]

/-- An object list of edges has an opening brace for each edge. -/
theorem count_edgeObjects (added : List (Nat × Nat)) :
    (serializeObjectList (edgeObjects n added)).count '{' = (orderedEdges n added).length := by
  have hone : ∀ e : Nat × Nat, (lineText (edgeFields e)).count '{' = 1 := by
    intro e
    rw [lineText, List.count_append, List.count_cons_self,
      Joined.count_intercalate_of_ne (by decide), List.count_flatten, count_edgeFields (by decide)]
    rfl
  rw [serializeObjectList_eq, Joined.count_intercalate_of_ne (by decide), edgeObjects,
    List.count_flatten]
  simp [hone, Function.comp_def]

private theorem edgeObjects_inj {added' : List (Nat × Nat)}
    (h : serializeObjectList (edgeObjects n added) = serializeObjectList (edgeObjects n added')) :
    orderedEdges n added = orderedEdges n added' := by
  have hcommas : ∀ l : List (Nat × Nat), (l.map edgeFields).map (List.map (List.count ',')) =
      List.replicate l.length [0, 0] := by
    intro l
    rw [List.map_map, ← List.map_const']
    exact List.map_congr_left fun e _ => count_edgeFields (by decide) e
  have hlength : (orderedEdges n added).length = (orderedEdges n added').length := by
    rw [← count_edgeObjects, ← count_edgeObjects, h]
  apply List.map_injective_iff.mpr (fun _ _ => edgeFields_inj)
  refine serializeObjectList_inj ?_ h
  rw [hcommas, hcommas, hlength]

private theorem getLast?_edgeObjects (added : List (Nat × Nat)) :
    (serializeObjectList (edgeObjects n added)).getLast? ≠ some ',' := by
  by_cases hnil : edgeObjects n added = []
  · simp [hnil, serializeObjectList, List.intercalate]
  · rw [getLast?_serializeObjectList hnil]
    decide

private theorem serialize_cases (added : List (Nat × Nat)) :
    (ofEdges added : GameGraph n).serializeUndirectedEdges =
        serializeObjectList (edgeObjects n added) ∨
      (ofEdges added : GameGraph n).serializeUndirectedEdges =
        serializeObjectList (edgeObjects n added) ++ [','] := by
  by_cases h : orderedEdges n added = [] ∨ (n - 2, n - 1) ∈ orderedEdges n added
  · exact .inl (serialize_eq_iff.mpr h)
  · rw [not_or] at h
    exact .inr (serialize_of_not_last h.2 h.1)

/-- In any case the edges can be read back from the text. -/
theorem orderedEdges_eq_of_text {added' : List (Nat × Nat)}
    (h : (ofEdges added : GameGraph n).serializeUndirectedEdges =
      (ofEdges added' : GameGraph n).serializeUndirectedEdges) :
    orderedEdges n added = orderedEdges n added' := by
  apply edgeObjects_inj
  rcases serialize_cases (n := n) added with htext | htext <;>
    rcases serialize_cases (n := n) added' with htext' | htext' <;> rw [htext, htext'] at h
  · exact h
  · refine absurd ?_ (getLast?_edgeObjects (n := n) added)
    rw [h, List.getLast?_concat]
  · refine absurd ?_ (getLast?_edgeObjects (n := n) added')
    rw [← h, List.getLast?_concat]
  · exact List.append_cancel_right h

section Valid

variable (hvalid : ∀ e ∈ added, ({} : GameGraph n).isValidEdge e.1 e.2 = true)
include hvalid

private theorem orderedEdges_eq_nil_iff : orderedEdges n added = [] ↔ added = [] := by
  constructor
  · intro hnil
    apply List.eq_nil_iff_forall_not_mem.mpr
    intro e he
    obtain ⟨hne, hsource, hdestination⟩ := isValidEdge_eq_true.mp (hvalid e he)
    rcases Nat.lt_or_gt_of_ne hne with hlt | hgt
    · exact List.eq_nil_iff_forall_not_mem.mp hnil e
        (mem_orderedEdges.mpr ⟨hsource, hdestination, hlt, .inl he⟩)
    · exact List.eq_nil_iff_forall_not_mem.mp hnil (e.2, e.1)
        (mem_orderedEdges.mpr ⟨hdestination, hsource, hgt, .inr he⟩)
  · rintro rfl
    exact List.eq_nil_iff_forall_not_mem.mpr fun e he => by simpa using (mem_orderedEdges.mp he).2.2.2

private theorem lastEdge_mem_iff :
    (n - 2, n - 1) ∈ orderedEdges n added ↔ (n - 2, n - 1) ∈ added ∨ (n - 1, n - 2) ∈ added := by
  rw [mem_orderedEdges]
  constructor
  · exact fun h => h.2.2.2
  · intro h
    have hnodes : n - 2 ≠ n - 1 ∧ n - 1 < n := by
      rcases h with h | h
      · obtain ⟨hne, _, hlt⟩ := isValidEdge_eq_true.mp (hvalid _ h)
        exact ⟨hne, hlt⟩
      · obtain ⟨hne, hlt, _⟩ := isValidEdge_eq_true.mp (hvalid _ h)
        exact ⟨hne.symm, hlt⟩
    exact ⟨by omega, by omega, by omega, h⟩

/-- The edge list is a well-formed object list exactly when it is empty or the edge
between the last two nodes is in the graph. -/
theorem serializeUndirectedEdges_eq_iff :
    ((ofEdges added : GameGraph n).serializeUndirectedEdges =
        serializeObjectList (edgeObjects n added) ↔
      added = [] ∨ (n - 2, n - 1) ∈ added ∨ (n - 1, n - 2) ∈ added) ∧
    ∀ added' : List (Nat × Nat), (ofEdges added : GameGraph n).serializeUndirectedEdges =
        (ofEdges added' : GameGraph n).serializeUndirectedEdges →
      orderedEdges n added = orderedEdges n added' := by
  rw [serialize_eq_iff, orderedEdges_eq_nil_iff hvalid, lastEdge_mem_iff hvalid]
  exact ⟨Iff.rfl, fun _ => orderedEdges_eq_of_text⟩

end Valid

/-- The text of a single edge of the game board. -/
theorem not_serializeUndirectedEdges_single :
    (ofEdges [(0, 1)] : GameGraph GAME_NODE_NUM).serializeUndirectedEdges = "{0,1},".toList ∧
      serializeObjectList (edgeObjects GAME_NODE_NUM [(0, 1)]) = "{0,1}".toList := by
  decide +kernel

theorem serializeUndirectedEdges_eq_iff_path :
    (ofEdges [(1, 0), (5, 4)] : GameGraph GAME_NODE_NUM).serializeUndirectedEdges =
      serializeObjectList (edgeObjects GAME_NODE_NUM [(1, 0), (5, 4)]) :=
  (serializeUndirectedEdges_eq_iff (by decide)).1.mpr (by decide)

end GameGraph

end UpsServer
