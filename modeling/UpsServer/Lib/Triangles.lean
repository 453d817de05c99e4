import Mathlib.Combinatorics.SimpleGraph.Basic
import Mathlib.Data.Fintype.Card

namespace Triangles

open Finset

variable {V : Type} {G H : SimpleGraph V}

/-- Three pairwise adjacent nodes. -/
def HasTriangle (G : SimpleGraph V) : Prop :=
  ∃ a b c, G.Adj a b ∧ G.Adj b c ∧ G.Adj c a

/-- Any two nodes are adjacent in one of two graphs. -/
def Cover (G H : SimpleGraph V) : Prop := ∀ a b, a ≠ b → G.Adj a b ∨ H.Adj a b

theorem Cover.symm (h : Cover G H) : Cover H G := fun a b hne => (h a b hne).symm

/-- Among three neighbours of a node two are adjacent in the same graph as the
node is to them, or all three are adjacent in the other graph. -/
theorem Cover.hasTriangle_of_neighbors (h : Cover G H) {v : V} {s : Finset V}
    (hs : ∀ x ∈ s, G.Adj v x) (hcard : 2 < s.card) : HasTriangle G ∨ HasTriangle H := by
  obtain ⟨a, ha, b, hb, c, hc, hab, hac, hbc⟩ := two_lt_card.mp hcard
  by_cases hG : G.Adj a b ∨ G.Adj b c ∨ G.Adj c a
  · left
    obtain hadj | hadj | hadj := hG
    · exact ⟨v, a, b, hs a ha, hadj, (hs b hb).symm⟩
    · exact ⟨v, b, c, hs b hb, hadj, (hs c hc).symm⟩
    · exact ⟨v, c, a, hs c hc, hadj, (hs a ha).symm⟩
  · right
    rw [not_or, not_or] at hG
    obtain ⟨hnab, hnbc, hnca⟩ := hG
    refine ⟨a, b, c, ?_, ?_, ?_⟩
    · exact (h a b hab).resolve_left hnab
    · exact (h b c hbc).resolve_left hnbc
    · exact (h c a hac.symm).resolve_left hnca

/-- When two graphs cover the pairs of six nodes or more, one of them has a
triangle. -/
theorem Cover.hasTriangle [Fintype V] [DecidableEq V] (h : Cover G H)
    (hcard : 6 ≤ Fintype.card V) : HasTriangle G ∨ HasTriangle H := by
  classical
  have hnonempty : Nonempty V := Fintype.card_pos_iff.mp (by omega)
  obtain ⟨v⟩ := hnonempty
  have hothers : (univ.erase v).card = Fintype.card V - 1 := card_erase_of_mem (mem_univ v)
  have hsum := card_filter_add_card_filter_not (s := univ.erase v) (G.Adj v)
  by_cases hG : 2 < ((univ.erase v).filter (G.Adj v)).card
  · refine h.hasTriangle_of_neighbors (v := v) (fun x hx => ?_) hG
    exact (mem_filter.mp hx).2
  · -- at least three of the five other nodes are not adjacent to `v` in `G`
    apply Or.symm
    apply h.symm.hasTriangle_of_neighbors (v := v) (s := (univ.erase v).filter (¬ G.Adj v ·))
    · intro x hx
      obtain ⟨hx, hnadj⟩ := mem_filter.mp hx
      exact (h v x (ne_of_mem_erase hx).symm).resolve_left hnadj
    · omega

end Triangles
