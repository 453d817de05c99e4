import Mathlib.Data.Finset.Card
import Mathlib.Data.Finset.Dedup
import Mathlib.Data.List.Iterate
import UpsServer.Lib.Transition

/-! A game in which two players claim elements in turn, round after round. Whoever
claims a losing set has lost the round, and the next one begins with nothing
claimed. -/

namespace ClaimGame

/-- The players, the elements that can be claimed, and the sets that lose. -/
structure Rules (P E : Type) where
  other : P → P
  other_other : ∀ p, other (other p) = p
  other_ne : ∀ p, other p ≠ p
  ground : Finset E
  loses : Finset E → Prop

structure Position (P E : Type) where
  owned : P → Finset E
  turn : P

variable {P E : Type} [DecidableEq P] [DecidableEq E] (rules : Rules P E)

/-- The player on turn claims an element nobody owns. -/
inductive Step : Position P E → P × E → Position P E → Prop where
  | goesOn {pos : Position P E} {e : E} (hground : e ∈ rules.ground) (hfree : ∀ p, e ∉ pos.owned p)
      (h : ¬ rules.loses (insert e (pos.owned pos.turn))) :
      Step pos (pos.turn, e)
        { owned := Function.update pos.owned pos.turn (insert e (pos.owned pos.turn))
          turn := rules.other pos.turn }
  | ends {pos : Position P E} {e : E} (hground : e ∈ rules.ground) (hfree : ∀ p, e ∉ pos.owned p)
      (h : rules.loses (insert e (pos.owned pos.turn))) :
      Step pos (pos.turn, e) { owned := fun _ => ∅, turn := rules.other pos.turn }

def system (starter : P) : TransitionSystem (Position P E) (P × E) where
  init pos := pos = { owned := fun _ => ∅, turn := starter }
  step := Step rules

/-- What a player has claimed in some moves. -/
def claimed (moves : List (P × E)) (p : P) : Finset E :=
  ((moves.filter (·.1 = p)).map (·.2)).toFinset

theorem mem_claimed {moves : List (P × E)} {p : P} {e : E} :
    e ∈ claimed moves p ↔ (p, e) ∈ moves := by
  rw [claimed, List.mem_toFinset, List.mem_map]
  constructor
  · rintro ⟨⟨q, e'⟩, hmem, rfl⟩
    obtain ⟨hmem, hq⟩ := List.mem_filter.mp hmem
    rwa [← of_decide_eq_true hq]
  · intro hmem
    exact ⟨(p, e), List.mem_filter.mpr ⟨hmem, decide_eq_true rfl⟩, rfl⟩

theorem claimed_nil (p : P) : claimed ([] : List (P × E)) p = ∅ := rfl

theorem claimed_append_self (moves : List (P × E)) (p : P) (e : E) :
    claimed (moves ++ [(p, e)]) p = insert e (claimed moves p) := by
  ext e'
  rw [mem_claimed, List.mem_append, List.mem_singleton, Finset.mem_insert, mem_claimed, or_comm,
    Prod.mk.injEq, eq_self, true_and]

theorem claimed_append_of_ne (moves : List (P × E)) {p q : P} (e : E) (h : q ≠ p) :
    claimed (moves ++ [(p, e)]) q = claimed moves q := by
  ext e'
  rw [mem_claimed, List.mem_append, List.mem_singleton, mem_claimed, Prod.mk.injEq]
  exact or_iff_left fun heq => h heq.1

theorem card_claimed_le (moves : List (P × E)) (p : P) :
    (claimed moves p).card ≤ (moves.map (·.1)).count p := by
  calc (claimed moves p).card ≤ ((moves.filter (·.1 = p)).map (·.2)).length :=
        List.toFinset_card_le _
    _ = (moves.map (·.1)).count p := by
        rw [List.length_map, List.count, List.countP_map, List.countP_eq_length_filter]
        exact congrArg (fun f => (moves.filter f).length) (funext fun m => (beq_eq_decide m.1 p).symm)

/-- Distinct elements claimed in turn. -/
structure Moves (starter : P) (moves : List (P × E)) : Prop where
  turns : moves.map (·.1) = List.iterate rules.other starter moves.length
  distinct : (moves.map (·.2)).Nodup
  ground : ∀ e ∈ moves.map (·.2), e ∈ rules.ground

/-- The last move has made a losing set. -/
def Lost (moves : List (P × E)) : Prop :=
  ∃ before p e, moves = before ++ [(p, e)] ∧ rules.loses (claimed moves p)

/-- A round that is still on. -/
structure Ongoing (starter : P) (moves : List (P × E)) : Prop extends Moves rules starter moves where
  notLost : ∀ before, before <+: moves → ¬ Lost rules before

/-- A round that ended with its last move. -/
structure Finished (starter : P) (moves : List (P × E)) : Prop extends Moves rules starter moves where
  lost : Lost rules moves
  notLost : ∀ before, before <+: moves → before ≠ moves → ¬ Lost rules before

variable {rules} {starter : P} {moves : List (P × E)}

omit [DecidableEq P] [DecidableEq E] in
theorem moves_nil (starter : P) : Moves rules starter ([] : List (P × E)) :=
  ⟨rfl, List.nodup_nil, fun _ he => nomatch he⟩

theorem not_lost_nil : ¬ Lost rules ([] : List (P × E)) := by
  rintro ⟨before, p, e, hnil, _⟩
  exact List.append_ne_nil_of_right_ne_nil before (List.cons_ne_nil _ _) hnil.symm

theorem ongoing_nil (starter : P) : Ongoing rules starter ([] : List (P × E)) := by
  refine ⟨moves_nil starter, fun before hprefix => ?_⟩
  rw [List.prefix_nil.mp hprefix]
  exact not_lost_nil

theorem lost_append_singleton {p : P} {e : E} :
    Lost rules (moves ++ [(p, e)]) ↔ rules.loses (insert e (claimed moves p)) := by
  rw [← claimed_append_self]
  constructor
  · rintro ⟨before, p', e', heq, hloses⟩
    obtain ⟨hlast, _⟩ := List.cons.inj (List.append_inj_right' heq rfl)
    cases hlast
    exact hloses
  · exact fun hloses => ⟨moves, p, e, rfl, hloses⟩

section Next

variable {p : P} {e : E} (hturn : p = rules.other^[moves.length] starter) (hground : e ∈ rules.ground)
  (hfree : ∀ q, e ∉ claimed moves q)

include hturn hground hfree

theorem Moves.append (h : Moves rules starter moves) : Moves rules starter (moves ++ [(p, e)]) := by
  refine ⟨?_, ?_, ?_⟩
  · rw [List.map_append, h.turns, List.length_append, List.length_singleton, List.iterate_add, hturn]
    rfl
  · rw [List.map_append, List.map_singleton]
    refine h.distinct.append (List.nodup_singleton e) ?_
    rw [List.disjoint_singleton, List.mem_map]
    rintro ⟨⟨q, e'⟩, hmem, rfl⟩
    exact hfree q (mem_claimed.mpr hmem)
  · intro e' he'
    rw [List.map_append, List.mem_append, List.map_singleton, List.mem_singleton] at he'
    rcases he' with he' | rfl
    · exact h.ground e' he'
    · exact hground

theorem Ongoing.append (h : Ongoing rules starter moves)
    (hgoes : ¬ rules.loses (insert e (claimed moves p))) :
    Ongoing rules starter (moves ++ [(p, e)]) := by
  refine ⟨h.toMoves.append hturn hground hfree, fun before hprefix => ?_⟩
  rcases List.prefix_concat_iff.mp hprefix with rfl | hprefix
  · rwa [lost_append_singleton]
  · exact h.notLost before hprefix

theorem Ongoing.finish (h : Ongoing rules starter moves)
    (hloses : rules.loses (insert e (claimed moves p))) :
    Finished rules starter (moves ++ [(p, e)]) := by
  refine ⟨h.toMoves.append hturn hground hfree, lost_append_singleton.mpr hloses,
    fun before hprefix hne => ?_⟩
  rcases List.prefix_concat_iff.mp hprefix with rfl | hprefix
  · exact (hne rfl).elim
  · exact h.notLost before hprefix

end Next

omit [DecidableEq P] in
/-- No round has more moves than there are elements. -/
theorem Moves.length_le (h : Moves rules starter moves) : moves.length ≤ rules.ground.card := by
  rw [← List.length_map (·.2), ← List.toFinset_card_of_nodup h.distinct]
  exact Finset.card_le_card fun e he => h.ground e (List.mem_toFinset.mp he)

omit [DecidableEq E] in
theorem count_iterate_le (p q : P) (n : Nat) :
    2 * (List.iterate rules.other p n).count q ≤ n + 1 := by
  induction n using Nat.twoStepInduction with
  | zero => simp
  | one =>
    have hone : (List.iterate rules.other p 1).count q ≤ 1 := List.count_le_length
    omega
  | more n ih _ =>
    rw [List.iterate, List.iterate, rules.other_other, List.count_cons, List.count_cons]
    have hne := rules.other_ne p
    by_cases hp : p = q
    · have hother : (rules.other p == q) = false := by
        rw [beq_eq_false_iff_ne]
        exact fun heq => hne (heq.trans hp.symm)
      rw [hother, if_neg Bool.false_ne_true]
      split <;> omega
    · rw [if_neg (fun heq => hp (beq_iff_eq.mp heq))]
      split <;> omega

/-- Where losing takes `m` elements, a round takes `2 * m - 1` moves. -/
theorem Finished.le_length (h : Finished rules starter moves) {m : Nat}
    (hm : ∀ s, rules.loses s → m ≤ s.card) : 2 * m ≤ moves.length + 1 := by
  obtain ⟨_, p, _, _, hloses⟩ := h.lost
  have hcard := (hm _ hloses).trans (card_claimed_le moves p)
  rw [h.turns] at hcard
  exact (Nat.mul_le_mul_left 2 hcard).trans (count_iterate_le _ _ _)

/-- The moves of a play: rounds that have been lost and a round that is on, which
gives what everybody owns. The turns go on from one round to the next. -/
structure Played (rules : Rules P E) (starter : P) (moves : List (P × E)) (pos : Position P E)
    (lost : List (List (P × E))) (current : List (P × E)) : Prop where
  split : moves = lost.flatten ++ current
  lost : ∀ round ∈ lost, ∃ p, Finished rules p round
  ongoing : ∃ p, Ongoing rules p current ∧ pos.turn = rules.other^[current.length] p
  owned : ∀ p, pos.owned p = claimed current p
  turns : moves.map (·.1) = List.iterate rules.other starter moves.length
  turn : pos.turn = rules.other^[moves.length] starter

theorem played_init (starter : P) :
    Played rules starter [] { owned := fun _ => ∅, turn := starter } [] [] :=
  ⟨rfl, (fun _ hround => nomatch hround), ⟨starter, ongoing_nil starter, rfl⟩, claimed_nil, rfl, rfl⟩

section Step

variable {pos pos' : Position P E} {move : P × E} {lost : List (List (P × E))} {current : List (P × E)}

theorem turn_of_step (h : Step rules pos move pos') :
    move.1 = pos.turn ∧ pos'.turn = rules.other pos.turn := by
  cases h <;> exact ⟨rfl, rfl⟩

theorem Played.turns_step (h : Played rules starter moves pos lost current)
    (hstep : Step rules pos move pos') :
    (moves ++ [move]).map (·.1) = List.iterate rules.other starter (moves ++ [move]).length ∧
      pos'.turn = rules.other^[(moves ++ [move]).length] starter := by
  obtain ⟨hmove, hturn⟩ := turn_of_step hstep
  rw [List.map_append, h.turns, List.length_append, List.length_singleton, List.iterate_add,
    Function.iterate_succ_apply', ← h.turn, hturn, List.map_singleton, hmove]
  exact ⟨rfl, rfl⟩

/-- A move goes on with the current round, or ends it. -/
theorem Played.step (h : Played rules starter moves pos lost current)
    (hstep : Step rules pos move pos') :
    ∃ lost' current', Played rules starter (moves ++ [move]) pos' lost' current' := by
  obtain ⟨hturns, hturn'⟩ := h.turns_step hstep
  obtain ⟨p, hongoing, hturn⟩ := h.ongoing
  cases hstep with
  | @goesOn e hground hfree hgoes =>
    simp only [h.owned] at hfree hgoes
    refine ⟨lost, current ++ [(pos.turn, e)], ?_, h.lost,
      ⟨p, hongoing.append hturn hground hfree hgoes, ?_⟩, fun q => ?_, hturns, hturn'⟩
    · rw [h.split, List.append_assoc]
    · rw [List.length_append, List.length_singleton, Function.iterate_succ_apply', ← hturn]
    · by_cases hq : q = pos.turn
      · subst hq
        rw [claimed_append_self, ← h.owned]
        exact Function.update_self _ _ _
      · rw [claimed_append_of_ne _ _ hq, ← h.owned]
        exact Function.update_of_ne hq _ _
  | @ends e hground hfree hloses =>
    simp only [h.owned] at hfree hloses
    refine ⟨lost ++ [current ++ [(pos.turn, e)]], [], ?_, fun round hround => ?_,
      ⟨rules.other pos.turn, ongoing_nil _, rfl⟩, claimed_nil, hturns, hturn'⟩
    · rw [h.split, List.flatten_append, List.flatten_singleton, List.append_assoc, List.append_nil]
    · rw [List.mem_append, List.mem_singleton] at hround
      rcases hround with hround | rfl
      · exact h.lost round hround
      · exact ⟨p, hongoing.finish hturn hground hfree hloses⟩

end Step

/-- Every run is a play. -/
theorem played_of_run {steps : List (Position P E × (P × E) × Position P E)} {pos : Position P E}
    (h : (system rules starter).Run steps pos) :
    ∃ lost current, Played rules starter (steps.map (·.2.1)) pos lost current := by
  induction h with
  | init h =>
    cases h
    exact ⟨[], [], played_init starter⟩
  | step _ hstep ih =>
    obtain ⟨lost, current, hplayed⟩ := ih
    rw [List.map_append]
    exact hplayed.step hstep

end ClaimGame
