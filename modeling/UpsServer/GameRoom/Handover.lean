import Mathlib.Data.Multiset.Bind
import UpsServer.GameRoom.Invariants

open Outcome

namespace UpsServer

/-- The descriptors of the clients who return with a change. -/
def GameStateChange.clientFds (change : GameStateChange) : Multiset Int :=
  (change.client1.map (·.clientFd)).elim 0 ({·}) + (change.client2.map (·.clientFd)).elim 0 ({·})

/-- The descriptors of the clients in the input of a game. -/
def inputFds (gameInput : EventfdQueue ProtocolClient) : Multiset Int :=
  (gameInput.data.map (·.clientFd) : List Int)

/-- The descriptors of the clients in the output of a game. -/
def outputFds (gameOutput : EventfdQueue GameStateChange) : Multiset Int :=
  (gameOutput.data : Multiset GameStateChange).bind (·.clientFds)

/-- No client returns with a pause. -/
theorem outputFds_of_pauses {gameOutput gameOutput' : EventfdQueue GameStateChange} {k : Nat}
    (h : gameOutput'.data = gameOutput.data ++ List.replicate k { newState := .PAUSED }) :
    outputFds gameOutput' = outputFds gameOutput := by
  rw [outputFds, outputFds, h, ← Multiset.coe_add, Multiset.add_bind, add_eq_left]
  refine Multiset.eq_zero_iff_forall_notMem.mpr fun fd hfd => ?_
  obtain ⟨change, hchange, hfd⟩ := Multiset.mem_bind.mp hfd
  rw [List.eq_of_mem_replicate (Multiset.mem_coe.mp hchange)] at hfd
  exact absurd hfd (Multiset.notMem_zero fd)

theorem outputFds_push (gameOutput : EventfdQueue GameStateChange) (change : GameStateChange) :
    outputFds (gameOutput.push change) = outputFds gameOutput + change.clientFds := by
  simp [outputFds, ← Multiset.coe_add]

theorem inputFds_push (gameInput : EventfdQueue ProtocolClient) (client : ProtocolClient) :
    inputFds (gameInput.push client) = inputFds gameInput + {client.clientFd} := by
  simp [inputFds, ← Multiset.coe_add]

/-- What a step of its own does to the clients a game shares with the idle room:
none is lost, and until the game is destroyed only pauses are reported. -/
structure Handover (t t' : GameThread) : Prop where
  sockets : t'.game.heldFds + outputFds t'.game.gameOutput + t'.game.closedSockets =
    t.game.heldFds + outputFds t.game.gameOutput + t.game.closedSockets
  closed : t.game.closedSockets <+: t'.game.closedSockets
  inputEvfd : t'.game.gameInput.evfd = t.game.gameInput.evfd
  outputEvfd : t'.game.gameOutput.evfd = t.game.gameOutput.evfd
  input : t'.game.gameInput.data <:+ t.game.gameInput.data
  output :
    t'.pc ≠ .finished ∧ (∃ k, t'.game.gameOutput.data =
        t.game.gameOutput.data ++ List.replicate k { newState := .PAUSED }) ∨
    t.pc = .stopping ∧ t' = ⟨t.game.destruct, .finished⟩

namespace GameThread

open Game

private theorem handover_of_settled {t t' : GameThread} (h : Settled t.game t'.game)
    (hpc : t'.pc ≠ .finished) : Handover t t' where
  sockets := by
    obtain ⟨k, hk⟩ := h.output
    rw [outputFds_of_pauses hk, add_right_comm, h.sockets, add_right_comm]
  closed := h.closed
  inputEvfd := h.inputEvfd
  outputEvfd := h.outputEvfd
  input := h.input
  output := .inl ⟨hpc, h.output⟩

private theorem handover_destroy (g : Game) : Handover ⟨g, .stopping⟩ ⟨g.destruct, .finished⟩ where
  sockets := by
    change g.destruct.heldFds + outputFds (g.gameOutput.push _) + (g.closedSockets : Multiset Int) =
      _
    rw [heldFds_destruct, outputFds_push]
    change _ + (_ + g.playerFds) + _ = g.playerFds + _ + _ + _
    ac_rfl
  closed := List.prefix_rfl
  inputEvfd := rfl
  outputEvfd := rfl
  input := List.suffix_rfl
  output := .inr ⟨rfl, rfl⟩

theorem pc_resume {pc : ThreadPc} {x : Exec Game Game} {t : GameThread} (h : resume pc x = some t) :
    t.pc = pc ∨ t.pc = .stopping := by
  cases x with
  | ok g =>
    cases h
    exact .inl rfl
  | error e =>
    obtain ⟨_, h⟩ := Option.ite_none_right_eq_some.mp h
    cases h
    exact .inr rfl

/-- Only the destructor finishes a thread. -/
theorem pc_ne_finished {t t' : GameThread} {action : GameAction} (hown : action.isOwn = true)
    (hne : action ≠ .destroy) (h : step t action = some t') : t'.pc ≠ .finished := by
  intro hfinished
  cases effect_of_step h with
  | deliver => cases hown
  | output _ hown' =>
    rw [hown] at hown'
    cases hown'
  | newClientEvent hpc | handlerDone _ hpc | receive _ hpc | receiveThrows _ _ hpc | disconnect hpc
  | removeDescriptor hpc | stop hpc => cases hpc.symm.trans hfinished
  | takeNewClient _ _ hresume | message _ hresume =>
    rcases pc_resume hresume with hpc | hpc <;> cases hpc.symm.trans hfinished
  | destroy => exact (hne rfl).elim

/-- Every step of a game thread hands its clients over. -/
theorem handover_step {t t' : GameThread} {action : GameAction} (hown : action.isOwn = true)
    (h : step t action = some t') : Handover t t' := by
  by_cases hdestroy : action = .destroy
  · subst hdestroy
    obtain ⟨hpc, h⟩ := Option.ite_none_right_eq_some.mp h
    cases h
    obtain ⟨g, pc⟩ := t
    cases hpc
    exact handover_destroy g
  · exact handover_of_settled (settled_step hown hdestroy h) (pc_ne_finished hown hdestroy h)

end GameThread

end UpsServer
