import UpsServer.GameRoom.Quiet

open Outcome

namespace UpsServer.Game

/-- The player who is on turn. -/
def onTurn (g : Game) : PlayerRef := if g.isPlayerOneTurn then .player1 else .player2

/-- The edge is valid and belongs to neither player. -/
def isFreeEdge (g : Game) (edgeSource edgeDestination : Nat) : Bool :=
  g.player1.myGraph.isValidEdge edgeSource edgeDestination &&
    !g.player1.myGraph.isUndirectedEdge edgeSource edgeDestination &&
    !g.player2.myGraph.isUndirectedEdge edgeSource edgeDestination

/-- What has been checked when a command gets to move. -/
structure Legal (g : Game) (msg : ProtocolData) (clientFd : Int) (move : Move) : Prop where
  notPaused : g.isPaused = false
  player : g.findPlayer clientFd = some move.player
  onTurn : move.player = g.onTurn
  online : ∀ ref, ∃ client, (g.player ref).client = some client
  named : ∃ edge, msg.data.get? "add_edge".toList = some edge ∧
    parseEdge edge = .ok (some (move.edgeSource, move.edgeDestination))
  free : g.isFreeEdge move.edgeSource move.edgeDestination = true

/-- A text is read without an exception exactly when it has three characters or
more. -/
theorem parseEdge_ok_iff {edge : Str} :
    (∃ nodes, parseEdge edge = .ok nodes) ↔ 3 ≤ edge.length := by
  unfold parseEdge substr
  by_cases h : 3 ≤ edge.length
  · rw [if_neg (by omega), if_neg (by omega)]
    simp only [ok_bind, h, iff_true]
    split
    · split <;> exact ⟨_, rfl⟩
    · exact ⟨_, rfl⟩
  · simp only [h, iff_false, not_exists]
    intro nodes
    by_cases hempty : 1 > edge.length
    · rw [if_pos hempty]
      simp
    · rw [if_neg hempty, if_pos (by omega)]
      simp

private theorem hasUndirectedEdge_eq_ok {n : Nat} {g : GameGraph n} {source destination : Nat}
    (h : g.isValidEdge source destination = true) :
    g.hasUndirectedEdge source destination = .ok (g.isUndirectedEdge source destination) := by
  simp [GameGraph.hasUndirectedEdge, h]

theorem isFreeEdge_eq_true {g : Game} {edgeSource edgeDestination : Nat} :
    g.isFreeEdge edgeSource edgeDestination = true ↔
      (∀ ref, (g.player ref).myGraph.isValidEdge edgeSource edgeDestination = true) ∧
        ∀ ref, (g.player ref).myGraph.isUndirectedEdge edgeSource edgeDestination = false := by
  simp only [isFreeEdge, Bool.and_eq_true, Bool.not_eq_true']
  constructor
  · rintro ⟨⟨hvalid, hfree1⟩, hfree2⟩
    exact ⟨fun _ => hvalid, fun ref => by cases ref <;> assumption⟩
  · rintro ⟨hvalid, hfree⟩
    exact ⟨⟨hvalid .player1, hfree .player1⟩, hfree .player2⟩

/-- An edge that was read is taken when it is free. -/
theorem checkEdge_of_nodes {g : Game} {edge : Str} {edgeSource edgeDestination : Nat}
    (h : parseEdge edge = .ok (some (edgeSource, edgeDestination))) (ref : PlayerRef) :
    g.checkEdge ref edge =
      .ok
        (if g.isFreeEdge edgeSource edgeDestination then some
          ⟨ref, edgeSource, edgeDestination⟩ else none) := by
  have hsame : (g.player ref).myGraph.isValidEdge edgeSource edgeDestination =
      g.player1.myGraph.isValidEdge edgeSource edgeDestination := rfl
  rw [checkEdge, h, withState_ok, ok_bind, isFreeEdge]
  simp only [hsame]
  cases hvalid : g.player1.myGraph.isValidEdge edgeSource edgeDestination with
  | false => rfl
  | true =>
    have hvalid2 : g.player2.myGraph.isValidEdge edgeSource edgeDestination = true := hvalid
    simp only [hasUndirectedEdge_eq_ok hvalid, hasUndirectedEdge_eq_ok hvalid2, withState_ok,
      ok_bind]
    cases g.player1.myGraph.isUndirectedEdge edgeSource edgeDestination <;>
      cases g.player2.myGraph.isUndirectedEdge edgeSource edgeDestination <;> rfl

theorem checkEdge_of_none {g : Game} {edge : Str} (h : parseEdge edge = .ok none)
    (ref : PlayerRef) : g.checkEdge ref edge = .ok none := by
  rw [checkEdge, h]
  rfl

theorem checkEdge_of_error {g : Game} {edge : Str} {fault : Fault}
    (h : parseEdge edge = .error fault) (ref : PlayerRef) :
    g.checkEdge ref edge = .error (fault, g) := by
  rw [checkEdge, h]
  rfl

/-- The edge of a move is the one the text names. -/
theorem checkEdge_eq_some {g : Game} {ref : PlayerRef} {edge : Str} {move : Move}
    (h : g.checkEdge ref edge = .ok (some move)) :
    move.player = ref ∧ parseEdge edge = .ok (some (move.edgeSource, move.edgeDestination)) ∧
      g.isFreeEdge move.edgeSource move.edgeDestination = true := by
  cases hparse : parseEdge edge with
  | error fault =>
    rw [checkEdge_of_error hparse] at h
    cases h
  | ok nodes =>
    cases nodes with
    | none =>
      rw [checkEdge_of_none hparse] at h
      cases h
    | some nodes =>
      rw [checkEdge_of_nodes hparse] at h
      injection h with h
      split at h
      · rename_i hfree
        cases h
        exact ⟨rfl, rfl, hfree⟩
      · cases h

theorem isNotOnTurn_eq_ok {g : Game} {clientFd : Int} {b : Bool}
    (h : g.isNotOnTurn clientFd = .ok b) :
    ∃ client, (g.player g.onTurn.other).client = some client ∧
      b = (client.clientFd == clientFd) := by
  obtain ⟨client, hclient, h⟩ := bind_eq_ok.mp h
  cases h
  refine ⟨client, ?_, rfl⟩
  rw [clientOf_eq_ok] at hclient
  rw [onTurn]
  split at hclient <;> simp_all [PlayerRef.other]

theorem getField_eq_ok {msg : ProtocolData} {name value : Str} :
    msg.getField name = .ok value ↔ msg.data.get? name = some value := by
  unfold ProtocolData.getField
  cases msg.data.get? name <;> simp

/-- Only legal moves pass the checks. -/
theorem legal_of_readMove {g : Game} {msg : ProtocolData} {clientFd : Int} {move : Move}
    (h : g.readMove msg clientFd = .ok (some move)) : Legal g msg clientFd move := by
  unfold readMove at h
  split at h
  · cases h
  rename_i hpaused
  obtain ⟨ref, href, h⟩ := bind_eq_ok.mp h
  obtain ⟨notOnTurn, hnotOnTurn, h⟩ := bind_eq_ok.mp h
  split at h
  · cases h
  rename_i honTurn
  split at h
  · cases h
  obtain ⟨edge, hedge, h⟩ := bind_eq_ok.mp h
  obtain ⟨rfl, hparse, hfree⟩ := checkEdge_eq_some h
  rw [getPlayer_eq_ok] at href
  rw [withState_eq_ok, getField_eq_ok] at hedge
  obtain ⟨opponent, hopponent, rfl⟩ := isNotOnTurn_eq_ok hnotOnTurn
  obtain ⟨client, hclient, rfl⟩ := findPlayer_eq_some href
  have hturn : move.player = g.onTurn := by
    refine (PlayerRef.eq_or_eq_other _ _).resolve_right fun hother => honTurn ?_
    rw [hother, hopponent] at hclient
    cases hclient
    exact beq_self_eq_true _
  refine ⟨by simpa using hpaused, href, hturn, fun ref => ?_, ⟨edge, hedge, hparse⟩, hfree⟩
  rcases PlayerRef.eq_or_eq_other ref g.onTurn with rfl | rfl
  · exact ⟨client, hturn ▸ hclient⟩
  · exact ⟨opponent, hopponent⟩

end UpsServer.Game
