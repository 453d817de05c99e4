import UpsServer.GameServer.PlayerLimit

namespace UpsServer

/-- Only sockets that were held are closed. -/
theorem drop_le_of_sockets {before after : List Int} {kept held : Multiset Int}
    (hclosed : before <+: after) (h : kept + after = held + before) :
    ((after.drop before.length : List Int) : Multiset Int) ≤ held := by
  obtain ⟨dropped, rfl⟩ := hclosed
  rw [← Multiset.coe_add, add_left_comm, add_comm held, add_right_inj] at h
  rw [List.drop_left, ← h]
  exact Multiset.le_add_left _ _

theorem IdleUsersRoom.Admits.closed_le {idle idle' : IdleUsersRoom} {fds : Multiset Int}
    (h : Admits fds idle idle') :
    ((idle'.closedSockets.drop idle.closedSockets.length : List Int) : Multiset Int) ≤
      idle.clientFds + fds :=
  drop_le_of_sockets h.closed (h.sockets.trans (add_right_comm _ _ _))

/-- The descriptors the action opens. -/
def ServerAction.opened : ServerAction → List Int
  | .accept clientFd => [clientFd]
  | _ => []

/-- The action is one of a game thread. -/
def ServerAction.isGame : ServerAction → Bool
  | .game _ _ => true
  | _ => false

namespace Server

open IdleUsersRoom

variable {s s' : Server} {action : ServerAction}

/-- The descriptors that destructors close in a step, one after another. -/
def closedBy (s : Server) : ServerAction → List Int
  | .game roomId action =>
    ((s.thread roomId).bind fun t => (t.step action).map fun t' =>
      t'.game.closedSockets.drop t.game.closedSockets.length).getD []
  | action => ((s.step action).map fun s' =>
      s'.idle.closedSockets.drop s.idle.closedSockets.length).getD []

private theorem closedBy_idle (hidle : action.isGame = false) (hstep : s.step action = some s') :
    s.closedBy action = s'.idle.closedSockets.drop s.idle.closedSockets.length := by
  cases action with
  | game => cases hidle
  | _ => simp [closedBy, hstep]

private theorem closedBy_same (hidle : action.isGame = false) (hstep : s.step action = some s')
    (hsame : s'.idle.closedSockets = s.idle.closedSockets) :
    s.closedBy action = [] := by
  rw [closedBy_idle hidle hstep, hsame, List.drop_length]

theorem closedBy_game {roomId : Int} {action : GameAction} {room : GameRoom} {stored t' : GameThread}
    (hroom : s.idle.gameRooms.get? roomId = some room) (hstored : s.games.get? roomId = some stored)
    (hgo : (stored.withQueues room).step action = some t') :
    s.closedBy (.game roomId action) =
      t'.game.closedSockets.drop (stored.withQueues room).game.closedSockets.length := by
  have hthread : s.thread roomId = some (stored.withQueues room) := by
    rw [thread, hroom, Option.bind_some, hstored, Option.map_some]
  simp [closedBy, hthread, hgo]

theorem Invariant.heldFds_le (h : s.Invariant) : s.idle.heldFds ≤ s.sockets.val := by
  rw [← h.sockets, heldFds_eq]
  exact Multiset.le_add_right _ _

theorem clientFds_le (idle : IdleUsersRoom) : idle.clientFds ≤ idle.heldFds :=
  calc idle.clientFds ≤ idle.clientFds + idle.gameRooms.tokens (·.heldFds) := Multiset.le_add_right _ _
    _ ≤ idle.heldFds := Multiset.le_add_left _ _

/-- What a game and the queues of its room hold is held by the server. -/
theorem Invariant.game_le (h : s.Invariant) {roomId : Int} {room : GameRoom} {stored : GameThread}
    (hroom : s.idle.gameRooms.get? roomId = some room) (hstored : s.games.get? roomId = some stored) :
    room.heldFds + stored.game.playerFds ≤ s.sockets.val := by
  have hrooms : room.heldFds ≤ s.idle.heldFds :=
    calc room.heldFds ≤ s.idle.gameRooms.tokens (·.heldFds) := UnorderedMap.le_tokens _ hroom
      _ ≤ s.idle.clientFds + s.idle.gameRooms.tokens (·.heldFds) := Multiset.le_add_left _ _
      _ ≤ s.idle.heldFds := Multiset.le_add_left _ _
  rw [← h.sockets, heldFds_eq]
  exact add_le_add hrooms (UnorderedMap.le_tokens (·.game.playerFds) hstored)

/-- The idle thread closes only sockets of clients who are in the idle room or come
there. -/
theorem closedBy_admits (h : s.Invariant) {idle : IdleUsersRoom} {pc : IdlePc} {fds : Multiset Int}
    (hidle : action.isGame = false) (hstep : s.step action = some (s.withIdle pc idle)) {popped : IdleUsersRoom}
    (hadmits : Admits fds popped idle) (hclosed : popped.closedSockets = s.idle.closedSockets)
    (hfds : popped.clientFds + fds ≤ s.idle.heldFds) :
    (s.closedBy action : Multiset Int) ≤ s.sockets.val := by
  rw [closedBy_idle hidle hstep, ← hclosed]
  exact (hadmits.closed_le.trans hfds).trans h.heldFds_le

/-- No step closes a socket that is not open, nor one socket twice. -/
theorem closedBy_le (h : s.Invariant) (hstep : s.step action = some s') :
    (s.closedBy action : Multiset Int) ≤ s.sockets.val := by
  have hsame : action.isGame = false → s'.idle.closedSockets = s.idle.closedSockets →
      (s.closedBy action : Multiset Int) ≤ s.sockets.val := by
    intro hidle hsame
    rw [closedBy_same hidle hstep hsame]
    exact Multiset.zero_le _
  have hclients : s.idle.clientFds + 0 ≤ s.idle.heldFds := by
    rw [add_zero]
    exact clientFds_le s.idle
  cases effect_of_step h.stored hstep with
  | accept _ heq | newClientEvent heq | stateChangeEvent heq =>
    subst heq
    exact hsame rfl rfl
  | handlerDone hdone heq =>
    subst heq
    refine hsame ?_ rfl
    cases action <;> first | rfl | cases hdone
  | @addNewClient clientFd data idle hdata hadmits heq =>
    subst heq
    refine closedBy_admits h rfl hstep hadmits rfl ?_
    rw [IdleUsersRoom.heldFds, hdata, ← Multiset.cons_coe, ← Multiset.singleton_add]
    change s.idle.clientFds + {clientFd} ≤
      {clientFd} + (data : Multiset Int) + (s.idle.clientFds + s.idle.gameRooms.tokens (·.heldFds))
    rw [add_comm s.idle.clientFds {clientFd}]
    exact add_le_add (Multiset.le_add_right _ _) (Multiset.le_add_right _ _)
  | receive hreceive heq =>
    subst heq
    exact closedBy_admits h rfl hstep (admits_receiveMessages hreceive) rfl hclients
  | answer _ _ hanswer heq =>
    subst heq
    exact closedBy_admits h rfl hstep (admits_answer hanswer) rfl hclients
  | disconnect heq =>
    subst heq
    exact closedBy_admits h rfl hstep (admits_onClientDisconnect s.idle _) rfl hclients
  | startGame _ _ _ _ _ hnew _ heq =>
    obtain ⟨_, _, _, rfl⟩ := newGameThread_eq_ok hnew
    subst heq
    exact hsame rfl rfl
  | sendClient _ hsend heq =>
    obtain ⟨_, _, _, _, _, rfl⟩ := sendClientToGameThread_eq_ok h.stored hsend
    subst heq
    exact hsame rfl rfl
  | @applyStateChange roomId room change data idle hroom hdata happly heq =>
    have hheld := heldFds_popOutput hroom hdata
    obtain ⟨_, back, hadmits, rfl⟩ | ⟨_, rfl⟩ | ⟨_, rfl⟩ := applyStateChange_eq_ok happly
    · have hidle := closedBy_idle rfl hstep
      rw [hidle, heq]
      refine le_trans ?_ h.heldFds_le
      refine (hadmits.closed_le.trans ?_).trans hheld.le
      exact add_le_add_left (clientFds_le _) _
    · subst heq
      exact hsame rfl rfl
    · subst heq
      exact hsame rfl rfl
  | @game roomId action room stored t' hown hroom hstored hgo heq =>
    have hhandover := GameThread.handover_step hown hgo
    rw [closedBy_game hroom hstored hgo]
    refine (drop_le_of_sockets hhandover.closed hhandover.sockets).trans ?_
    refine le_trans (le_of_eq ?_) (h.game_le hroom hstored)
    change stored.game.playerFds + inputFds room.gameInput + outputFds room.gameOutput = _
    rw [GameRoom.heldFds]
    ac_rfl

/-- The sockets before and after a step differ by those it opens and those it
closes. -/
theorem sockets_of_step (h : s.Invariant) (hstep : s.step action = some s') :
    s'.sockets.val + (s.closedBy action : Multiset Int) =
      s.sockets.val + (action.opened : Multiset Int) := by
  have hle := closedBy_le h hstep
  have hremaining : action.opened = [] → s'.sockets = s.sockets \ (s.closedBy action).toFinset →
      s'.sockets.val + (s.closedBy action : Multiset Int) =
        s.sockets.val + (action.opened : Multiset Int) := by
    intro hopened hsockets
    have hnodup : (s.closedBy action).Nodup := Multiset.nodup_of_le hle s.sockets.nodup
    rw [hopened, hsockets, Finset.sdiff_val, List.toFinset_val, hnodup.dedup, tsub_add_cancel_of_le hle]
    exact (add_zero _).symm
  have hidle : action.opened = [] → action.isGame = false →
      s'.sockets = s.remaining s.idle.closedSockets s'.idle.closedSockets →
      s'.sockets.val + (s.closedBy action : Multiset Int) =
        s.sockets.val + (action.opened : Multiset Int) := by
    intro hopened hidle hsockets
    exact hremaining hopened (by rw [hsockets, remaining, closedBy_idle hidle hstep])
  cases effect_of_step h.stored hstep with
  | @accept clientFd hnew heq =>
    subst heq
    have hclosed : s.closedBy (.accept clientFd) = [] := closedBy_same rfl hstep rfl
    rw [hclosed]
    change (insert clientFd s.sockets).val + 0 = s.sockets.val + {clientFd}
    rw [Finset.insert_val_of_notMem hnew, add_zero, add_comm, Multiset.singleton_add]
  | handlerDone hdone heq =>
    have hclosed : s.closedBy action = [] := by
      refine closedBy_same ?_ hstep (by rw [heq])
      cases action <;> first | rfl | cases hdone
    refine hremaining ?_ (by rw [heq, hclosed]; exact (Finset.sdiff_empty).symm)
    cases action <;> first | rfl | cases hdone
  | newClientEvent heq | stateChangeEvent heq | addNewClient _ _ heq | receive _ heq
  | answer _ _ _ heq | disconnect heq | startGame _ _ _ _ _ _ _ heq | sendClient _ _ heq
  | applyStateChange _ _ _ heq => exact hidle rfl rfl (by rw [heq]; rfl)
  | game _ hroom hstored hgo heq =>
    refine hremaining rfl ?_
    rw [closedBy_game hroom hstored hgo, heq]
    rfl

/-- A socket that is closed was open and is not any more. -/
theorem closed_of_step (h : s.Invariant) (hstep : s.step action = some s') {fd : Int}
    (hfd : fd ∈ s.closedBy action) : fd ∈ s.sockets ∧ fd ∉ s'.sockets := by
  have hopen : fd ∈ s.sockets := Multiset.mem_of_le (closedBy_le h hstep) hfd
  refine ⟨hopen, fun hstill => ?_⟩
  have hopened : action.opened.count fd = 0 := by
    cases effect_of_step h.stored hstep with
    | accept hnew =>
      refine List.count_eq_zero_of_not_mem fun hmem => hnew ?_
      rwa [← List.mem_singleton.mp hmem]
    | handlerDone hdone => cases action <;> first | rfl | cases hdone
    | _ => rfl
  have hcount := congrArg (Multiset.count fd) (sockets_of_step h hstep)
  rw [Multiset.count_add, Multiset.count_add, Multiset.coe_count, Multiset.coe_count, hopened,
    Multiset.count_eq_one_of_mem s.sockets.nodup hopen,
    Multiset.count_eq_one_of_mem s'.sockets.nodup hstill] at hcount
  have hclosed : 0 < (s.closedBy action).count fd := List.count_pos_iff.mpr hfd
  omega

/-- In every run a descriptor is closed as often as it was opened, but for once if
it is still open. No step closes a descriptor twice or one that nobody held, and
nobody holds one that is closed. -/
theorem closedOnce_of_run {steps : List (Server × ServerAction × Server)} (h : system.Run steps s) :
    (∀ fd, (steps.map fun t => t.2.1.opened.count fd).sum =
      (steps.map fun t => (t.1.closedBy t.2.1).count fd).sum + if fd ∈ s.heldFds then 1 else 0) ∧
      ∀ t ∈ steps, (t.1.closedBy t.2.1).Nodup ∧
        ∀ fd ∈ t.1.closedBy t.2.1, fd ∈ t.1.heldFds ∧ fd ∉ t.2.2.heldFds := by
  constructor
  · intro fd
    induction h with
    | init hinit =>
      rw [(invariant_init hinit).sockets]
      obtain ⟨_, _, _, _, _, _, _, _, _, hsockets⟩ := hinit
      simp [hsockets]
    | @step steps s s' action hrun hstep ih =>
      have hinvariant := invariant_of_reachable hrun.reachable
      have hcount := congrArg (Multiset.count fd) (sockets_of_step hinvariant hstep)
      rw [Multiset.count_add, Multiset.count_add, Multiset.coe_count, Multiset.coe_count,
        Multiset.count_eq_of_nodup s.sockets.nodup, Multiset.count_eq_of_nodup s'.sockets.nodup] at hcount
      rw [hinvariant.sockets] at ih
      rw [(hinvariant.step hstep).sockets]
      simp only [List.map_append, List.map_cons, List.map_nil, List.sum_append, List.sum_cons,
        List.sum_nil]
      omega
  · intro t ht
    obtain ⟨hreach, hstep⟩ := h.forall_reachable t ht
    have hinvariant := invariant_of_reachable hreach
    refine ⟨Multiset.nodup_of_le (closedBy_le hinvariant hstep) t.1.sockets.nodup, fun fd hfd => ?_⟩
    rw [hinvariant.sockets, (hinvariant.step hstep).sockets]
    exact closed_of_step hinvariant hstep hfd

/-- A client connects and terminates his connection. -/
theorem closedOnce_of_run_terminate : ∃ steps s, system.Run steps s ∧
    (steps.map fun t => (t.1.closedBy t.2.1).count 10).sum = 1 ∧ 10 ∉ s.heldFds := by
  have hcheck : ((oneRoom.bind (TransitionSystem.traceActions step
      (connectClient 10 ++ sendMessage 10 ["TERMINATE_CONNECTION"]))).any fun trace =>
        decide ((trace.1.map fun t => t.2.1.opened.count 10).sum = 1) &&
          decide ((trace.1.map fun t => (t.1.closedBy t.2.1).count 10).sum = 1)) = true := by
    decide +kernel
  obtain ⟨steps, s, hrun, hstate⟩ :=
    TransitionSystem.exists_run_of_any (fun _ _ _ => id) (fun _ => init_of_oneRoom) hcheck
  rw [Bool.and_eq_true, decide_eq_true_iff, decide_eq_true_iff] at hstate
  have hbooks := (closedOnce_of_run hrun).1 10
  rw [hstate.1, hstate.2] at hbooks
  refine ⟨steps, s, hrun, hstate.2, fun hheld => ?_⟩
  rw [if_pos hheld] at hbooks
  cases hbooks

end Server

end UpsServer
