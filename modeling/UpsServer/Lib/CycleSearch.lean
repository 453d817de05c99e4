import Mathlib.Combinatorics.SimpleGraph.Paths
import Mathlib.Combinatorics.SimpleGraph.Connectivity.Connected

namespace CycleSearch

open SimpleGraph

variable {V : Type} [DecidableEq V] {G : SimpleGraph V}

/-- What a depth-first search along simple paths reports: `path` holds the nodes
visited so far, the last one first. A node met again closes a cycle; any other
node is left for each of its neighbours but the one it was entered from. -/
inductive Reports (G : SimpleGraph V) : List V → V → Nat → Prop where
  | close {path : List V} {node : V} (hnode : node ∈ path) : Reports G path node
      (path.idxOf node + 1)
  | step {path : List V} {node v : V} {k : Nat} (hnode : node ∉ path) (hadj : G.Adj node v)
      (hparent : path.head? ≠ some v) (hv : Reports G (node :: path) v k) : Reports G path node k

/-- A chain of distinct adjacent nodes leads along a path to each of them. -/
theorem exists_path_of_isChain {a x : V} {l : List V} (hchain : (a :: l).IsChain G.Adj)
    (hnodup : (a :: l).Nodup) (hx : x ∈ a :: l) :
    ∃ p : G.Walk a x, p.IsPath ∧ p.length = (a :: l).idxOf x ∧ p.support ⊆ a :: l := by
  induction l generalizing a with
  | nil =>
    obtain rfl := List.mem_singleton.mp hx
    exact ⟨.nil, .nil, by simp, by simp⟩
  | cons b l ih =>
    by_cases hax : a = x
    · subst hax
      exact ⟨.nil, .nil, by simp, by simp⟩
    · obtain ⟨hab, hchain⟩ := List.isChain_cons_cons.mp hchain
      obtain ⟨ha, hnodup⟩ := List.nodup_cons.mp hnodup
      obtain ⟨p, hpath, hlength, hsupport⟩ :=
        ih hchain hnodup (List.mem_of_ne_of_mem (Ne.symm hax) hx)
      refine ⟨.cons hab p, hpath.cons fun hmem => ha (hsupport hmem), ?_, ?_⟩
      · rw [Walk.length_cons, hlength, List.idxOf_cons_ne _ hax]
      · rw [Walk.support_cons]
        exact List.cons_subset_cons _ hsupport

/-- Every reported number is the length of a cycle the search can reach. -/
theorem Reports.exists_cycle {root node : V} {path : List V} {k : Nat} (h : Reports G path node k)
    (hchain : (node :: path).IsChain G.Adj) (hnodup : path.Nodup)
    (hback : path.tail.head? ≠ some node) (hreach : G.Reachable root node) :
    ∃ (v : V) (c : G.Walk v v), c.IsCycle ∧ G.Reachable root v ∧ c.length = k := by
  induction h with
  | @close path node hnode =>
    cases path with
    | nil => cases hnode
    | cons a l =>
      obtain ⟨hadj, hchain⟩ := List.isChain_cons_cons.mp hchain
      obtain ⟨p, hpath, hlength, _⟩ := exists_path_of_isChain hchain hnodup hnode
      refine ⟨node, .cons hadj p, (Walk.cons_isCycle_iff p hadj).mpr ⟨hpath, fun hedge => hback ?_⟩,
        hreach, ?_⟩
      · have hone := hpath.length_eq_one_of_mem_edges (Sym2.eq_swap ▸ hedge)
        have hlt := List.idxOf_lt_length_iff.mpr hnode
        have hget := List.getElem_idxOf hlt
        simp only [hlength ▸ hone, List.getElem_cons_succ] at hget
        rw [List.tail_cons, List.head?_eq_getElem?, ← hget, List.getElem?_eq_getElem]
      · rw [Walk.length_cons, hlength]
  | @step path node v k hnode hadj hparent hv ih =>
    refine ih (List.isChain_cons_cons.mpr ⟨hadj.symm, hchain⟩) (List.nodup_cons.mpr ⟨hnode, hnodup⟩)
      hparent ?_
    exact hreach.trans hadj.reachable

/-- From a node next to the path, the search follows any path back to it. -/
theorem reports_of_return {path : List V} {node t : V} (q : G.Walk node t) (hq : q.IsPath)
    (hdisjoint : ∀ x ∈ q.support, x ∈ path → x = t) (ht : t ∈ path)
    (hhead : q.length = 1 → path.head? ≠ some t) :
    Reports G path node (path.idxOf t + 1 + q.length) := by
  induction q generalizing path with
  | nil => exact .close ht
  | @cons node x t hadj q ih =>
    obtain ⟨hq, hnode⟩ := (Walk.cons_isPath_iff hadj q).mp hq
    have hne : node ≠ t := fun heq => hnode (heq ▸ q.end_mem_support)
    have hnotMem : node ∉ path := fun hmem => hne (hdisjoint node (by simp) hmem)
    have hreports := @ih (node :: path) hq ?_ (List.mem_cons_of_mem _ ht) ?_
    · rw [List.idxOf_cons_ne _ hne] at hreports
      refine .step hnotMem hadj ?_ (by rwa [Walk.length_cons, ← add_assoc, add_right_comm])
      intro hx
      have hxt : x = t := hdisjoint x (by simp) (List.mem_of_head? hx)
      subst hxt
      exact hhead (by simp [Walk.length_eq_zero_iff.mpr (Walk.isPath_iff_nil.mp hq)]) hx
    · intro y hy hmem
      rcases List.mem_cons.mp hmem with rfl | hmem
      · exact (hnode hy).elim
      · exact hdisjoint y (by simp [hy]) hmem
    · intro _ hx
      exact hne (by simpa using hx)

/-- Once at a node of a cycle that avoids the path, the search goes round it. -/
theorem reports_of_cycle {path : List V} {w : V} {c : G.Walk w w} (hc : c.IsCycle)
    (hdisjoint : ∀ x ∈ c.support, x ∉ path) : Reports G path w c.length := by
  cases c with
  | nil => exact (hc.ne_nil rfl).elim
  | @cons _ v _ hadj q =>
    have hthree := hc.three_le_length
    obtain ⟨hq, _⟩ := (Walk.cons_isCycle_iff q hadj).mp hc
    have hreports : Reports G (w :: path) v ((w :: path).idxOf w + 1 + q.length) :=
      reports_of_return q hq ?_ List.mem_cons_self ?_
    · refine .step (hdisjoint w (by simp)) hadj ?_ (by simpa [add_comm] using hreports)
      exact fun hv => hdisjoint v (by simp) (List.mem_of_head? hv)
    · intro x hx hmem
      rcases List.mem_cons.mp hmem with rfl | hmem
      · rfl
      · exact (hdisjoint x (by simp [hx]) hmem).elim
    · intro hone
      rw [Walk.length_cons] at hthree
      omega

/-- Whatever leads into a set leads into it along a path that meets it in its
last node only. -/
theorem exists_path_into {S : V → Prop} {u w : V} (p : G.Walk u w) (hw : S w) :
    ∃ (w' : V) (q : G.Walk u w'), q.IsPath ∧ S w' ∧ ∀ x ∈ q.support, S x → x = w' := by
  induction p with
  | nil => exact ⟨_, .nil, .nil, hw, by simp⟩
  | @cons u v w hadj p ih =>
    by_cases hu : S u
    · exact ⟨u, .nil, .nil, hu, by simp⟩
    · obtain ⟨w', q, hq, hw', hmeet⟩ := ih hw
      by_cases hmem : u ∈ q.support
      · exact ⟨w', q.dropUntil u hmem, hq.dropUntil hmem, hw',
          fun x hx => hmeet x (q.support_dropUntil_subset_support hmem hx)⟩
      · refine ⟨w', .cons hadj q, hq.cons hmem, hw', fun x hx hS => ?_⟩
        rcases List.mem_cons.mp (by simpa using hx) with rfl | hx
        · exact (hu hS).elim
        · exact hmeet x hx hS

/-- A cycle at the end of a path that meets it nowhere else is reported. -/
theorem reports_of_path {w node : V} {c : G.Walk w w} (hc : c.IsCycle) (r : G.Walk node w)
    (hr : r.IsPath) {path : List V} (hdisjoint : ∀ x ∈ r.support, x ∉ path)
    (hcycle : ∀ x ∈ c.support, x ∉ path) (hmeet : ∀ x ∈ r.support, x ∈ c.support → x = w) :
    Reports G path node c.length := by
  induction r generalizing path with
  | nil => exact reports_of_cycle hc hcycle
  | @cons node v w hadj r ih =>
    obtain ⟨hr, hnode⟩ := (Walk.cons_isPath_iff hadj r).mp hr
    have hnotMem : node ∉ c.support := fun hmem =>
      hnode (hmeet node (by simp) hmem ▸ r.end_mem_support)
    refine .step (hdisjoint node (by simp)) hadj ?_ (ih hc hr ?_ ?_ ?_)
    · exact fun hv => hdisjoint v (by simp) (List.mem_of_head? hv)
    · intro x hx hmem
      rcases List.mem_cons.mp hmem with rfl | hmem
      · exact hnode hx
      · exact hdisjoint x (by simp [hx]) hmem
    · intro x hx hmem
      rcases List.mem_cons.mp hmem with rfl | hmem
      · exact hnotMem hx
      · exact hcycle x hx hmem
    · exact fun x hx => hmeet x (by simp [hx])

/-- A search that starts with an empty path reports exactly the lengths of the
cycles in the connected component of its root. -/
theorem reports_nil_iff {root : V} {k : Nat} :
    Reports G [] root k ↔
      ∃ (v : V) (c : G.Walk v v), c.IsCycle ∧ G.Reachable root v ∧ c.length = k := by
  constructor
  · intro h
    exact h.exists_cycle (.singleton _) .nil (by simp) .rfl
  · rintro ⟨v, c, hc, ⟨p⟩, rfl⟩
    obtain ⟨w, r, hr, hw, hmeet⟩ :=
      exists_path_into (S := fun x => x ∈ c.support) p c.start_mem_support
    have hreports : Reports G [] root (c.rotate w hw).length :=
      reports_of_path (hc.rotate hw) r hr (fun _ _ => List.not_mem_nil)
        (fun _ _ => List.not_mem_nil)
        fun x hx hmem => hmeet x hx ((c.mem_support_rotate_iff w hw).mp hmem)
    rwa [Walk.length_rotate] at hreports

/-- A cycle of length three is reported exactly when three pairwise adjacent
nodes lie in the component of the root. -/
theorem reports_three_iff {root : V} :
    Reports G [] root 3 ↔ ∃ a b c, G.Adj a b ∧ G.Adj b c ∧ G.Adj c a ∧ G.Reachable root a := by
  rw [reports_nil_iff]
  constructor
  · rintro ⟨v, c, hc, hreach, hlength⟩
    match c, hc, hlength with
    | .cons hab (.cons hbc (.cons hca .nil)), _, _ => exact ⟨_, _, _, hab, hbc, hca, hreach⟩
  · rintro ⟨a, b, c, hab, hbc, hca, hreach⟩
    refine ⟨a, .cons hab (.cons hbc (.cons hca .nil)), ?_, hreach, rfl⟩
    rw [Walk.cons_isCycle_iff]
    have h₁ := hab.ne
    have h₂ := hbc.ne
    have h₃ := hca.ne
    simp [Walk.cons_isPath_iff, h₁, h₁.symm, h₂, h₃, h₃.symm]

end CycleSearch
