import Mathlib.Combinatorics.SimpleGraph.Connectivity.Connected
import UpsServer.Lib.Triangles

namespace Triangles

variable {V : Type} {G H : SimpleGraph V} {z : V}

/-- Three pairwise adjacent nodes that can be reached from `z`. -/
def HasTriangleAt (G : SimpleGraph V) (z : V) : Prop :=
  ∃ a b c, G.Adj a b ∧ G.Adj b c ∧ G.Adj c a ∧ G.Reachable z a

/-- Nodes are adjacent exactly if both or neither of them are in `C`. -/
def TwoCliques (G : SimpleGraph V) (C : Set V) : Prop :=
  ∀ a b, G.Adj a b ↔ a ≠ b ∧ (a ∈ C ↔ b ∈ C)

section Cover

variable (h : Cover G H) (hG : ¬ HasTriangleAt G z) (hH : ¬ HasTriangleAt H z)
include h

/-- What `z` cannot reach in one graph is its neighbour in the other one. -/
theorem Cover.adj_of_not_reachable {v u : V} (hv : G.Reachable z v) (hu : ¬ G.Reachable z u) :
    H.Adj v u := by
  have hne : v ≠ u := by
    rintro rfl
    exact hu hv
  exact (h v u hne).resolve_left fun hadj => hu (hv.trans hadj.reachable)

include hH

/-- A triangle in the other graph would be one at `z`. -/
theorem Cover.adj_of_not_reachable_both {u w : V} (hu : ¬ G.Reachable z u)
    (hw : ¬ G.Reachable z w) (hne : u ≠ w) : G.Adj u w := by
  refine (h u w hne).resolve_right fun hadj => hH ⟨z, u, w, ?_, hadj, ?_, .refl z⟩
  · exact h.adj_of_not_reachable (.refl z) hu
  · exact (h.adj_of_not_reachable (.refl z) hw).symm

theorem Cover.adj_of_reachable_both {t v w : V} (ht : ¬ G.Reachable z t) (hv : G.Reachable z v)
    (hw : G.Reachable z w) (hne : v ≠ w) : G.Adj v w := by
  have hnear : H.Adj z t := h.adj_of_not_reachable (.refl z) ht
  refine (h v w hne).resolve_right fun hadj => hH ⟨t, v, w, ?_, hadj, ?_, hnear.reachable⟩
  · exact (h.adj_of_not_reachable hv ht).symm
  · exact h.adj_of_not_reachable hw ht

include hG

/-- When two graphs cover the pairs of nodes and neither has a triangle at `z`, a
triangle of one of them makes it two cliques, `z` and at most one other node in the
first. -/
theorem Cover.exists_twoCliques (htriangle : HasTriangle G) : ∃ x, TwoCliques G {z, x} := by
  obtain ⟨a, b, c, hab, hbc, hca⟩ := htriangle
  have haway : ¬ G.Reachable z a := fun hreach => hG ⟨a, b, c, hab, hbc, hca, hreach⟩
  have hclique : ∀ v w, G.Reachable z v → G.Reachable z w → v ≠ w → G.Adj v w :=
    fun _ _ => h.adj_of_reachable_both hH haway
  obtain ⟨x, hx⟩ : ∃ x, ∀ v, G.Reachable z v ↔ v ∈ ({z, x} : Set V) := by
    by_cases halone : ∃ x, x ≠ z ∧ G.Reachable z x
    · obtain ⟨x, hne, hreach⟩ := halone
      refine ⟨x, fun v => ⟨fun hv => ?_, ?_⟩⟩
      · -- a third node of the component would close a triangle
        by_contra hthird
        rw [Set.mem_insert_iff, Set.mem_singleton_iff, not_or] at hthird
        exact hG ⟨z, x, v, hclique z x (.refl z) hreach hne.symm,
          hclique x v hreach hv (Ne.symm hthird.2), hclique v z hv (.refl z) hthird.1, .refl z⟩
      · rintro (rfl | rfl)
        · exact .refl _
        · exact hreach
    · refine ⟨z, fun v => ⟨fun hv => ?_, ?_⟩⟩
      · left
        by_contra hne
        exact halone ⟨v, hne, hv⟩
      · rintro (rfl | rfl) <;> exact .refl _
  refine ⟨x, fun v w => ?_⟩
  rw [← hx, ← hx]
  constructor
  · intro hadj
    exact ⟨hadj.ne, fun hv => hv.trans hadj.reachable, fun hw => hw.trans hadj.symm.reachable⟩
  · rintro ⟨hne, hsame⟩
    by_cases hv : G.Reachable z v
    · exact hclique v w hv (hsame.mp hv) hne
    · exact h.adj_of_not_reachable_both hH hv (fun hw => hv (hsame.mpr hw)) hne

end Cover

end Triangles
